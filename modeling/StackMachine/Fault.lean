import StackMachine.Action
import StackMachine.Word
import StackMachine.Text.Quoted
import StackMachine.Value.Text

/-! Why an operation of the machine stops, with the text and the exit code of each cause. An action
of the machine or of one of its parts is a state transformer that also has a state when it stops:
what a failed operation leaves behind is part of its result. -/
namespace StackMachine

inductive Space where
  | stack
  | heap
  | hook
  deriving DecidableEq, Repr, Inhabited

def Space.name : Space → String
  | .stack => "stack"
  | .heap => "heap"
  | .hook => "hook"

inductive NumeralError where
  | notCode
  | lateSign
  | secondPoint
  | unexpected
  deriving DecidableEq, Repr, Inhabited

def NumeralError.reason : NumeralError → String
  | .notCode => "not a character code"
  | .lateSign => "sign after the first character"
  | .secondPoint => "second decimal point"
  | .unexpected => "unexpected character"

inductive Fault where
  | stackOverflow (capacity : Nat)
  | stackUnderflow (operation : String) (required available : Nat)
  | noFreeMemory (requested largestFree : Nat)
  | invalidAddress (space : Space) (index limit : Nat)
  | unsetHook (index : Nat)
  | invalidFree (address size : Nat)
  | divisionByZero (operation : String)
  | malformedNumeral (text : List Char) (error : NumeralError)
  | invalidOperand (operation : String) (value : Value)
  | trap (cause : Trap)
  deriving DecidableEq, Repr, Inhabited

namespace Fault

def message : Fault → String
  | .stackOverflow capacity => s!"stack overflow: capacity of {capacity} slots exhausted"
  | .stackUnderflow operation required available =>
      s!"stack underflow: {operation} needs {required} slot(s), {available} live"
  | .noFreeMemory requested largestFree =>
      s!"no free memory: requested {requested} bytes, largest free run is {largestFree}"
  | .invalidAddress space index limit =>
      s!"invalid {space.name} address {index} (valid range 0..{limit})"
  | .unsetHook index => s!"invalid hook {index}: nothing recorded"
  | .invalidFree address size =>
      s!"invalid free: no live allocation of {size} bytes at address {address}"
  | .divisionByZero operation => s!"division by zero in {operation}"
  | .malformedNumeral text error =>
      s!"malformed numeric text {String.ofList (Text.quoted text)}: {error.reason}"
  | .invalidOperand operation value => s!"invalid operand {value.text} for {operation}"
  | .trap .arithmetic => "trap: arithmetic out of the word range"
  | .trap .bounds => "trap: access out of bounds"

def exitCode : Fault → Nat
  | .stackOverflow .. => 1
  | .noFreeMemory .. => 1
  | .stackUnderflow .. => 2
  | .invalidAddress .. => 3
  | .unsetHook .. => 3
  | .invalidFree .. => 4
  | .divisionByZero .. => 5
  | .malformedNumeral .. => 6
  | .invalidOperand .. => 7
  | .trap .. => 70

end Fault

/-- A step on a state of type `σ` that may stop with a fault, and has a state either way. -/
abbrev Action (σ : Type) := EStateM Fault σ

instance : MonadLift (Except Trap) (Except Fault) where
  monadLift
    | .ok x => .ok x
    | .error cause => .error (.trap cause)

instance {σ : Type} : MonadLift (Except Fault) (Action σ) where
  monadLift
    | .ok x => pure x
    | .error fault => throw fault

instance {σ : Type} : MonadLift (Except Trap) (Action σ) where
  monadLift
    | .ok x => pure x
    | .error cause => throw (.trap cause)

namespace Action

@[simp] theorem lift_ok {σ α : Type} (x : α) (s : σ) :
    (liftM (.ok x : Except Fault α) : Action σ α) s = .ok x s := rfl

@[simp] theorem lift_error {σ α : Type} (fault : Fault) (s : σ) :
    (liftM (.error fault : Except Fault α) : Action σ α) s = .error fault s := rfl

@[simp] theorem lift_step {σ α : Type} (x : α) (s : σ) :
    (liftM (.ok x : Except Trap α) : Action σ α) s = .ok x s := rfl

@[simp] theorem lift_trap {σ α : Type} (cause : Trap) (s : σ) :
    (liftM (.error cause : Except Trap α) : Action σ α) s = .error (.trap cause) s := rfl

end Action

namespace Value

def expectIndex (v : Value) (operation : String) : Except Fault Nat :=
  match v.toIndex? with
  | some n => .ok n
  | none => .error (.invalidOperand operation v)

/-- The bytes of a number of slots, if they are a word. -/
def slotBytes (slots : Nat) (operation : String) : Except Fault Nat :=
  match Word.mul? slots slotSize with
  | some size => .ok size
  | none => .error (.invalidOperand operation (ofNat slots))

end Value
end StackMachine
