import StackMachine.Fault

/-! The operand stack: a fixed number of slots and a pointer to the first free one. The slots below
the pointer are live, the others hold zero: `pop` clears the slot that it gives up. -/
namespace StackMachine

structure OperandStack where
  slots : Array Value
  pointer : Nat
  deriving DecidableEq, Repr, Inhabited

namespace OperandStack

def empty (capacity : Nat) : OperandStack := ⟨Array.replicate capacity Value.zero, 0⟩

def capacity (s : OperandStack) : Nat := s.slots.size

/-- The live values, the oldest first. -/
def live (s : OperandStack) : List Value := (s.slots.extract 0 s.pointer).toList

def top? (s : OperandStack) : Option Value := s.live.getLast?

def push (v : Value) : Action OperandStack Unit := do
  let s ← get
  if s.capacity ≤ s.pointer then throw (.stackOverflow s.capacity)
  let slots ← Cells.write s.slots s.pointer v
  let pointer ← Word.add s.pointer 1
  set (⟨slots, pointer⟩ : OperandStack)

theorem push_full (v : Value) (s : OperandStack) (full : s.capacity ≤ s.pointer) :
    push v s = .error (.stackOverflow s.capacity) s := by
  rw [push, Action.bind_ok (Action.get_run s), if_pos full]
  rfl

theorem push_room (v : Value) (s : OperandStack) (room : s.pointer < s.capacity)
    (words : s.capacity < Word.limit) :
    push v s = .ok () ⟨s.slots.setIfInBounds s.pointer v, s.pointer + 1⟩ := by
  have inside : s.pointer < s.slots.size := room
  have next : s.pointer + 1 < Word.limit := by omega
  rw [push, Action.bind_ok (Action.get_run s), if_neg (Nat.not_le.mpr room)]
  simp only [Cells.write, inside, if_true, Word.add_of_lt next]
  rfl

def pop : Action OperandStack Value := do
  let s ← get
  if s.pointer = 0 then throw (.stackUnderflow "pop" 1 0)
  let pointer ← Word.sub s.pointer 1
  let v ← Cells.read s.slots pointer
  let slots ← Cells.write s.slots pointer .zero
  set (⟨slots, pointer⟩ : OperandStack)
  return v

theorem pop_empty (s : OperandStack) (empty : s.pointer = 0) :
    pop s = .error (.stackUnderflow "pop" 1 0) s := by
  rw [pop, Action.bind_ok (Action.get_run s), if_pos empty]
  rfl

def checkLive (s : OperandStack) (index : Nat) : Except Fault Unit :=
  if s.pointer ≤ index then .error (.invalidAddress .stack index s.pointer) else .ok ()

def peek (s : OperandStack) (index : Nat) : Except Fault Value := do
  s.checkLive index
  Cells.read s.slots index

def poke (index : Nat) (v : Value) : Action OperandStack Unit := do
  let s ← get
  s.checkLive index
  let slots ← Cells.write s.slots index v
  set (⟨slots, s.pointer⟩ : OperandStack)

def require (s : OperandStack) (operation : String) (required : Nat) : Except Fault Unit :=
  if s.pointer < required then .error (.stackUnderflow operation required s.pointer) else .ok ()

end OperandStack
end StackMachine
