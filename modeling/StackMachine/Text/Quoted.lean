import StackMachine.Text.Hidden

/-! Text in double quotes. Quotes, backslashes and the common controls are escaped by a letter,
hidden characters by their code point, everything else stands for itself. -/
namespace StackMachine.Text

def hexDigits (n : Nat) : List Char := Nat.toDigits 16 n

def paddedHex (width n : Nat) : List Char :=
  List.replicate (width - (hexDigits n).length) '0' ++ hexDigits n

def escaped (c : Char) : List Char :=
  match c with
  | '\x00' => ['\\', '0']
  | '\t' => ['\\', 't']
  | '\r' => ['\\', 'r']
  | '\n' => ['\\', 'n']
  | '"' => ['\\', '"']
  | '\\' => ['\\', '\\']
  | c =>
      if isHidden c then
        ['\\', 'u', Char.ofNat 0x7B] ++ hexDigits c.toNat ++ [Char.ofNat 0x7D]
      else [c]

def quoted (text : List Char) : List Char := '"' :: text.flatMap escaped ++ ['"']

end StackMachine.Text
