import StackMachine.Op
import StackMachine.Text.Count

/-! The words of an operation: a mnemonic and its operands. `Op.words` writes them and `Op.ofWords`
reads them. The number of operands is checked first, and every mnemonic that is not known is taken
to have none. -/
namespace StackMachine

inductive OpError where
  | arity (mnemonic : String) (expected found : Nat)
  | notCount (word : String)
  | notNumber (word : String)
  | unknown (mnemonic : String)
  deriving DecidableEq, Repr, Inhabited

def OpError.message : OpError → String
  | .arity mnemonic expected found =>
      s!"`{mnemonic}` takes {expected} operand(s), found {found}"
  | .notCount word => s!"expected a count, found `{word}`"
  | .notNumber word => s!"expected a number, found `{word}`"
  | .unknown mnemonic => s!"unknown mnemonic `{mnemonic}`"

def BinaryOperator.mnemonic : BinaryOperator → String
  | .add => "add"
  | .subtract => "sub"
  | .multiply => "mul"
  | .divide => "div"
  | .modulo => "mod"

namespace Op

def words : Op → List String
  | .push v => ["push", v.text]
  | .binary op => [op.mnemonic]
  | .sign => ["sign"]
  | .allocate => ["alloc"]
  | .free => ["free"]
  | .store slots => ["store", Text.countText slots]
  | .load slots => ["load", Text.countText slots]
  | .copy => ["copy"]
  | .move => ["mov"]
  | .hook index => ["hook", Text.countText index]
  | .readHook index => ["ref_hook", Text.countText index]
  | .loadBasePointer => ["load_base_ptr"]
  | .enter => ["enter"]
  | .leave args locals => ["leave", Text.countText args, Text.countText locals]
  | .setReturn => ["set_ret"]
  | .getReturn => ["get_ret"]
  | .textToInteger => ["atoi"]
  | .textToFloat => ["atof"]
  | .integerToText => ["itoa"]
  | .floatToText => ["ftoa"]
  | .floatToInteger => ["ftoi"]
  | .integerToFloat => ["itof"]
  | .halt => ["halt"]

def text (op : Op) : String := " ".intercalate op.words

def arity (mnemonic : String) : Nat :=
  if mnemonic ∈ ["push", "store", "load", "hook", "ref_hook"] then 1
  else if mnemonic = "leave" then 2
  else 0

def readCount (word : String) : Except OpError UInt64 :=
  match Text.count? word with
  | some n => .ok n
  | none => .error (.notCount word)

def readValue (word : String) : Except OpError Value :=
  match Value.ofText? word with
  | some v => .ok v
  | none => .error (.notNumber word)

def ofOperands (mnemonic : String) (operands : List String) : Except OpError Op :=
  match mnemonic, operands with
  | "push", [word] => return .push (← readValue word)
  | "add", [] => .ok (.binary .add)
  | "sub", [] => .ok (.binary .subtract)
  | "mul", [] => .ok (.binary .multiply)
  | "div", [] => .ok (.binary .divide)
  | "mod", [] => .ok (.binary .modulo)
  | "sign", [] => .ok .sign
  | "alloc", [] => .ok .allocate
  | "free", [] => .ok .free
  | "store", [word] => return .store (← readCount word)
  | "load", [word] => return .load (← readCount word)
  | "copy", [] => .ok .copy
  | "mov", [] => .ok .move
  | "hook", [word] => return .hook (← readCount word)
  | "ref_hook", [word] => return .readHook (← readCount word)
  | "load_base_ptr", [] => .ok .loadBasePointer
  | "enter", [] => .ok .enter
  | "leave", [args, locals] => return .leave (← readCount args) (← readCount locals)
  | "set_ret", [] => .ok .setReturn
  | "get_ret", [] => .ok .getReturn
  | "atoi", [] => .ok .textToInteger
  | "atof", [] => .ok .textToFloat
  | "itoa", [] => .ok .integerToText
  | "ftoa", [] => .ok .floatToText
  | "ftoi", [] => .ok .floatToInteger
  | "itof", [] => .ok .integerToFloat
  | "halt", [] => .ok .halt
  | _, _ => .error (.unknown mnemonic)

def ofWords (mnemonic : String) (operands : List String) : Except OpError Op :=
  if operands.length ≠ arity mnemonic then
    .error (.arity mnemonic (arity mnemonic) operands.length)
  else ofOperands mnemonic operands

def agrees : Op → Op → Bool
  | .push v, .push w => v.sameNumber w
  | a, b => a == b

end Op
end StackMachine
