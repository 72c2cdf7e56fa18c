import StackMachine.Machine.Basic

/-! Heap blocks and transfers between stack and heap. Sizes on the stack count slots. Operands are
checked before anything is popped. -/
namespace StackMachine.Machine

def allocate : Action Machine Nat := do
  require "allocate" 1
  let slots ← (← operand 0).expectIndex "allocate"
  let size ← Value.slotBytes slots "allocate"
  let address ← onHeap (Heap.allocate size)
  let _ ← pop
  push (Value.ofNat address)
  return address

/-- Free the block whose address is on top and whose size lies below it. -/
def free : Action Machine Unit := do
  require "free" 2
  let address ← (← operand 0).expectIndex "free"
  let slots ← (← operand 1).expectIndex "free"
  let size ← Value.slotBytes slots "free"
  onHeap (Heap.free address size)
  let _ ← pop
  let _ ← pop

def storeDown (address : Nat) : Nat → Action Machine Unit
  | 0 => return ()
  | n + 1 => do
      let v ← pop
      let target ← slotAddress address n
      onHeap (Heap.writeSlot target v)
      storeDown address n

/-- Move values from below an address to that address, in the order in which they were pushed. -/
def store (slots : Nat) : Action Machine Unit := do
  require "store" (Word.saturatingAdd slots 1)
  let address ← (← operand 0).expectIndex "store"
  let size ← Value.slotBytes slots "store"
  (← get).heap.checkRange address size
  let _ ← pop
  storeDown address slots

def loadUp (address i : Nat) : Nat → Action Machine Unit
  | 0 => return ()
  | n + 1 => do
      let source ← slotAddress address i
      let v ← (← get).heap.readSlot source
      push v
      loadUp address (i + 1) n

/-- Replace an address by the values found there, the lowest slot first. -/
def load (slots : Nat) : Action Machine Unit := do
  require "load" 1
  let address ← (← operand 0).expectIndex "load"
  let size ← Value.slotBytes slots "load"
  let m ← get
  m.heap.checkRange address size
  let unused ← Word.sub m.stack.capacity m.stack.pointer
  let room ← Word.add unused 1
  if room < slots then throw (.stackOverflow m.stack.capacity)
  let _ ← pop
  loadUp address 0 slots

end StackMachine.Machine
