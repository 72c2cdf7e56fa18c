import StackMachine.Machine.Basic

/-! Arithmetic on the two topmost values, and on the topmost one. Operators look at their operands
before they pop them. -/
namespace StackMachine

inductive BinaryOperator where
  | add
  | subtract
  | multiply
  | divide
  | modulo
  deriving DecidableEq, Repr, Inhabited

namespace BinaryOperator

def name : BinaryOperator → String
  | .add => "add"
  | .subtract => "subtract"
  | .multiply => "multiply"
  | .divide => "divide"
  | .modulo => "modulo"

/-- The remainder of the integer parts, with the sign of the first. It is missing for a zero
divisor, and where the quotient is not a signed 64-bit integer. -/
def remainder? (a b : Int) : Option Int :=
  if b = 0 || (a = Value.minInteger && b = -1) then none else some (a.tmod b)

def apply (op : BinaryOperator) (a b : Value) : Except Fault Value :=
  match op with
  | .add => .ok (a.add b)
  | .subtract => .ok (a.sub b)
  | .multiply => .ok (a.mul b)
  | .divide => if b.isZero then .error (.divisionByZero op.name) else .ok (a.div b)
  | .modulo =>
      match remainder? a.toInteger b.toInteger with
      | some r => .ok (Value.ofInt r)
      | none => .error (.divisionByZero op.name)

end BinaryOperator

namespace Machine

/-- Replace two values by the result of an operator, the lower one being its left operand. -/
def binary (op : BinaryOperator) : Action Machine Unit := do
  require op.name 2
  let a ← operand 1
  let b ← operand 0
  let result ← op.apply a b
  let _ ← pop
  let _ ← pop
  push result

def sign : Action Machine Unit := do
  let v ← pop
  push v.sign

def floatToInteger : Action Machine Unit := do
  let v ← pop
  push v.truncate

/-- Integers are values already, so that only the operand is asked for. -/
def integerToFloat : Action Machine Unit := require "integer_to_float" 1

end Machine
end StackMachine
