import StackMachine.Machine.Basic

/-! References to stack slots: `copy` and `move` use them, and hooks keep them under a number. -/
namespace StackMachine.Machine

/-- The position that a reference names among the `live` lowest slots. -/
def resolve (reference : Value) (live : Nat) (operation : String) : Except Fault Nat := do
  let r ← reference.expectIndex operation
  if r = 0 then throw (.invalidOperand operation .zero)
  let index ← Word.sub r 1
  if live < r then throw (.invalidAddress .stack index live)
  return index

def copy : Action Machine Unit := do
  require "copy" 1
  let m ← get
  let live ← Word.sub m.stack.pointer 1
  let index ← resolve (← operand 0) live "copy"
  let v ← m.stack.peek index
  let _ ← pop
  push v

/-- Pop a reference and a value below it into the slot that the reference names. -/
def move : Action Machine Unit := do
  require "move" 2
  let live ← Word.sub (← get).stack.pointer 2
  let index ← resolve (← operand 0) live "move"
  let _ ← pop
  let v ← pop
  onStack (OperandStack.poke index v)

def checkHook (m : Machine) (index : Nat) : Except Fault Unit :=
  if m.hooks.size ≤ index then .error (.invalidAddress .hook index m.hooks.size) else .ok ()

def hook (index : Nat) : Action Machine Unit := do
  let m ← get
  m.checkHook index
  require "hook" 1
  let hooks ← Cells.write m.hooks index (some m.stack.pointer)
  set { m with hooks := hooks }

/-- Push the reference that a hook keeps, if its slot is live. -/
def readHook (index : Nat) : Action Machine Unit := do
  let m ← get
  m.checkHook index
  match ← Cells.read m.hooks index with
  | none => throw (.unsetHook index)
  | some reference =>
    if m.stack.pointer < reference then
      let position ← Word.sub reference 1
      throw (.invalidAddress .stack position m.stack.pointer)
    push (Value.ofNat reference)

def loadBasePointer : Action Machine Unit := do
  push (Value.ofNat (← get).basePointer)

end StackMachine.Machine
