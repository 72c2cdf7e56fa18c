/-! Decimal numbers `digits * 10 ^ exponent` and their text. Written without an exponent, read with
an optional one. -/
namespace StackMachine

structure Decimal where
  digits : Nat
  exponent : Int
  deriving DecidableEq, Repr, Inhabited

namespace Decimal

def tenPow (n : Nat) : Nat := Nat.pow 10 n

/-- The number as a ratio, with the powers of ten on one side. -/
def num (d : Decimal) : Nat := d.digits * tenPow d.exponent.toNat

def den (d : Decimal) : Nat := tenPow (-d.exponent).toNat

def digitChars (n : Nat) : List Char := Nat.toDigits 10 n

def zeros (n : Nat) : List Char := List.replicate n '0'

def digitCount (n : Nat) : Nat := (digitChars n).length

def positional (d : Decimal) : List Char :=
  let chars := digitChars d.digits
  let places := (-d.exponent).toNat
  if places = 0 then chars ++ zeros d.exponent.toNat
  else if places < chars.length then
    chars.take (chars.length - places) ++ '.' :: chars.drop (chars.length - places)
  else '0' :: '.' :: zeros (places - chars.length) ++ chars

def ofDigitChars (chars : List Char) : Nat := Nat.ofDigitChars 10 chars 0

@[simp] theorem ofDigitChars_digitChars (n : Nat) : ofDigitChars (digitChars n) = n := by
  simp [ofDigitChars, digitChars]

theorem digitChars_ne_nil (n : Nat) : digitChars n ≠ [] := Nat.toDigits_ne_nil

theorem isDigit_of_mem_digitChars {n : Nat} {c : Char} (member : c ∈ digitChars n) : c.isDigit :=
  Nat.isDigit_of_mem_toDigits (by decide) (by decide) member

def readExponent : List Char → Option Int
  | '+' :: rest => natural rest
  | '-' :: rest => (natural rest).map (- ·)
  | rest => natural rest
where
  natural (chars : List Char) : Option Int :=
    if chars.isEmpty then none
    else if chars.all Char.isDigit then some (ofDigitChars chars)
    else none

/-- Digits with at most one point among them and an optional exponent behind `e` or `E`. -/
def ofChars? (chars : List Char) : Option Decimal :=
  let whole := chars.takeWhile Char.isDigit
  let rest := chars.dropWhile Char.isDigit
  let (part, rest) := match rest with
    | '.' :: rest => (rest.takeWhile Char.isDigit, rest.dropWhile Char.isDigit)
    | rest => ([], rest)
  if (whole ++ part).isEmpty then none
  else
    let exponent := match rest with
      | [] => some 0
      | c :: rest => if c = 'e' || c = 'E' then readExponent rest else none
    exponent.map fun e => ⟨ofDigitChars (whole ++ part), e - part.length⟩

end Decimal
end StackMachine
