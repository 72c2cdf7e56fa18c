import StackMachine.OperandStack
import StackMachine.Heap

/-! The machine: an operand stack, a heap, a base pointer into the stack, a return register, a table
of hooks and a count of open frames. Sizes are fixed when it is made. A reference to a stack slot is
one more than its position, the stack pointer right after the slot was pushed; zero refers to
nothing. -/
namespace StackMachine

structure Config where
  stackCapacity : Nat := 1024
  heapSize : Nat := 65536
  hookCount : Nat := 256
  deriving DecidableEq, Repr, Inhabited

structure Machine where
  stack : OperandStack
  heap : Heap
  basePointer : Nat
  returnRegister : Value
  hooks : Array (Option Nat)
  frameDepth : Nat
  deriving DecidableEq, Repr, Inhabited

namespace Machine

def fresh (config : Config) : Machine where
  stack := .empty config.stackCapacity
  heap := .empty config.heapSize
  basePointer := 0
  returnRegister := .zero
  hooks := Array.replicate config.hookCount none
  frameDepth := 0

def onStack {α : Type} (action : Action OperandStack α) : Action Machine α := fun m =>
  match action m.stack with
  | .ok x stack => .ok x { m with stack := stack }
  | .error fault stack => .error fault { m with stack := stack }

def onHeap {α : Type} (action : Action Heap α) : Action Machine α := fun m =>
  match action m.heap with
  | .ok x heap => .ok x { m with heap := heap }
  | .error fault heap => .error fault { m with heap := heap }

def push (v : Value) : Action Machine Unit := onStack (OperandStack.push v)

def pop : Action Machine Value := onStack OperandStack.pop

def require (operation : String) (required : Nat) : Action Machine Unit := do
  (← get).stack.require operation required

def operand (depth : Nat) : Action Machine Value := do
  let m ← get
  let top ← Word.sub m.stack.pointer 1
  let index ← Word.sub top depth
  m.stack.peek index

def drop : Nat → Action Machine Unit
  | 0 => return ()
  | n + 1 => do
      let _ ← pop
      drop n

def slotAddress (address i : Nat) : Except Trap Nat := do
  let offset ← Word.mul i Value.slotSize
  Word.add address offset

end Machine
end StackMachine
