import StackMachine.Machine.Basic

/-! Call frames. A call pushes its arguments and a return slot; `enter` pushes the old base pointer
and points the base pointer right behind it; locals follow; `leave` takes all of this away again.
The saved base pointers form a chain through the stack, which `frameLinks` follows. Results cross a
return in the return register. -/
namespace StackMachine.Machine

def enter : Action Machine Unit := do
  push (Value.ofNat (← get).basePointer)
  modify fun m => { m with basePointer := m.stack.pointer }
  let depth ← Word.add (← get).frameDepth 1
  modify fun m => { m with frameDepth := depth }

/-- Close the innermost frame, which has `locals` locals, and drop its return slot and `args`
arguments. -/
def leave (args locals : Nat) : Action Machine Unit := do
  require "end_frame" (Word.saturatingAdd (Word.saturatingAdd locals 2) args)
  let m ← get
  let behind ← Word.sub m.stack.pointer locals
  let link ← Word.sub behind 1
  let base ← Word.add link 1
  if base ≠ m.basePointer then throw (.invalidAddress .stack link m.basePointer)
  let saved ← (← m.stack.peek link).expectIndex "end_frame"
  if link < saved then throw (.invalidAddress .stack saved link)
  drop locals
  let _ ← pop
  modify fun m => { m with basePointer := saved }
  let _ ← pop
  drop args
  modify fun m => { m with frameDepth := m.frameDepth - 1 }

def setReturn : Action Machine Unit := do
  let v ← pop
  modify fun m => { m with returnRegister := v }

def getReturn : Action Machine Unit := do
  push (← get).returnRegister

/-- The positions of the saved base pointers, from the one that `base` points behind outwards. The
chain ends where a saved value is not a base pointer further out. -/
def linksFrom (stack : OperandStack) (base : Nat) : List Nat :=
  if 0 < base ∧ base ≤ stack.pointer then
    (base - 1) ::
      match (stack.peek (base - 1)).toOption.bind Value.toIndex? with
      | some saved => if saved < base then linksFrom stack saved else []
      | none => []
  else []
termination_by base

def frameLinks (m : Machine) : List Nat := linksFrom m.stack m.basePointer

end StackMachine.Machine
