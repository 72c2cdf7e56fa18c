import Mathlib
import StackMachine.Op
import StackMachine.Proofs.Stack
import StackMachine.Proofs.Arena

/-! Operations as single steps. A step looks at the list of live values, makes all its checks and then
gives the machine that follows, or the fault of the first check that fails; it has no state in
between. `Op.step` is the step of an operation. That running an operation is taking its step is
shown in `StackMachine.Proofs.StepRun`; what an operation can do is read off here. -/
namespace StackMachine

namespace Heap

def allocation (h : Heap) (size : Nat) : Except Fault (Nat × Heap) :=
  if size = 0 then .ok (0, h)
  else
    match runEnd size 0 0 h.taken.toList with
    | none => .error (.noFreeMemory size h.largestFreeRun)
    | some stop => .ok (stop - size, h.taking (stop - size) size)

def release (h : Heap) (address size : Nat) : Except Fault Heap :=
  if size = 0 then .ok h
  else if ⟨address, size⟩ ∈ h.live then .ok (h.releasing address size)
  else .error (.invalidFree address size)

end Heap

/-- The machine with other live values, the top first. -/
def Machine.keeping (m : Machine) (values : List Value) : Machine :=
  { m with stack := .holding m.stack.capacity values }

def Machine.withHeap (m : Machine) (heap : Heap) : Machine := { m with heap := heap }

namespace Step

variable {m next : Machine}

def push (v : Value) (m : Machine) : Except Fault Machine :=
  if m.stack.values.length < m.stack.capacity then .ok (m.keeping (v :: m.stack.values))
  else .error (.stackOverflow m.stack.capacity)

theorem push_ok {v : Value} (taken : push v m = .ok next) :
    m.stack.values.length < m.stack.capacity ∧ next = m.keeping (v :: m.stack.values) := by
  rw [push] at taken
  split at taken
  case isTrue room => cases taken; exact ⟨room, rfl⟩
  case isFalse => cases taken

def binary (op : BinaryOperator) (m : Machine) : Except Fault Machine :=
  match m.stack.values with
  | b :: a :: rest => do
      let result ← op.apply a b
      return m.keeping (result :: rest)
  | values => .error (.stackUnderflow op.name 2 values.length)

theorem binary_ok {op : BinaryOperator} (taken : binary op m = .ok next) :
    ∃ a b rest result, m.stack.values = b :: a :: rest ∧ op.apply a b = .ok result ∧
      next = m.keeping (result :: rest) := by
  rw [binary] at taken
  split at taken
  case h_1 b a rest values =>
    obtain ⟨result, applied, kept⟩ := Action.check_passed taken
    cases kept
    exact ⟨a, b, rest, result, values, applied, rfl⟩
  case h_2 => cases taken

def replace (f : Value → Value) (m : Machine) : Except Fault Machine :=
  match m.stack.values with
  | v :: rest => .ok (m.keeping (f v :: rest))
  | [] => .error (.stackUnderflow "pop" 1 0)

theorem replace_ok {f : Value → Value} (taken : replace f m = .ok next) :
    ∃ v rest, m.stack.values = v :: rest ∧ next = m.keeping (f v :: rest) := by
  rw [replace] at taken
  split at taken
  case h_1 v rest values => cases taken; exact ⟨v, rest, values, rfl⟩
  case h_2 => cases taken

def integerToFloat (m : Machine) : Except Fault Machine := do
  m.stack.require "integer_to_float" 1
  return m

theorem integerToFloat_ok (taken : integerToFloat m = .ok next) : next = m := by
  obtain ⟨_, -, kept⟩ := Action.check_passed taken
  cases kept
  rfl

def allocate (m : Machine) : Except Fault (Nat × Machine) :=
  match m.stack.values with
  | count :: rest => do
      let slots ← count.expectIndex "allocate"
      let size ← Value.slotBytes slots "allocate"
      let (address, heap) ← m.heap.allocation size
      return (address, (m.keeping (Value.ofNat address :: rest)).withHeap heap)
  | [] => .error (.stackUnderflow "allocate" 1 0)

theorem allocate_ok {address : Nat} (taken : allocate m = .ok (address, next)) :
    ∃ count rest slots size heap, m.stack.values = count :: rest ∧
      count.expectIndex "allocate" = .ok slots ∧ Value.slotBytes slots "allocate" = .ok size ∧
      m.heap.allocation size = .ok (address, heap) ∧
      next = (m.keeping (Value.ofNat address :: rest)).withHeap heap := by
  rw [allocate] at taken
  split at taken
  case h_1 count rest values =>
    obtain ⟨slots, counted, taken⟩ := Action.check_passed taken
    obtain ⟨size, sized, taken⟩ := Action.check_passed taken
    obtain ⟨⟨address, heap⟩, allocated, kept⟩ := Action.check_passed taken
    cases kept
    exact ⟨count, rest, slots, size, heap, values, counted, sized, allocated, rfl⟩
  case h_2 => cases taken

def free (m : Machine) : Except Fault Machine :=
  match m.stack.values with
  | top :: count :: rest => do
      let address ← top.expectIndex "free"
      let slots ← count.expectIndex "free"
      let size ← Value.slotBytes slots "free"
      let heap ← m.heap.release address size
      return (m.keeping rest).withHeap heap
  | values => .error (.stackUnderflow "free" 2 values.length)

theorem free_ok (taken : free m = .ok next) :
    ∃ top count rest address slots size heap, m.stack.values = top :: count :: rest ∧
      top.expectIndex "free" = .ok address ∧ count.expectIndex "free" = .ok slots ∧
      Value.slotBytes slots "free" = .ok size ∧ m.heap.release address size = .ok heap ∧
      next = (m.keeping rest).withHeap heap := by
  rw [free] at taken
  split at taken
  case h_1 top count rest values =>
    obtain ⟨address, named, taken⟩ := Action.check_passed taken
    obtain ⟨slots, counted, taken⟩ := Action.check_passed taken
    obtain ⟨size, sized, taken⟩ := Action.check_passed taken
    obtain ⟨heap, released, kept⟩ := Action.check_passed taken
    cases kept
    exact ⟨top, count, rest, address, slots, size, heap, values, named, counted, sized, released, rfl⟩
  case h_2 => cases taken

def store (slots : Nat) (m : Machine) : Except Fault Machine := do
  m.stack.require "store" (Word.saturatingAdd slots 1)
  let address ← (m.stack.values.headD .zero).expectIndex "store"
  let size ← Value.slotBytes slots "store"
  m.heap.checkRange address size
  let rest := m.stack.values.tail
  return (m.keeping (rest.drop slots)).withHeap
    (m.heap.writing address (Value.listBytes (rest.take slots).reverse))

theorem store_ok {slots : Nat} (taken : store slots m = .ok next) :
    ∃ address size, Word.saturatingAdd slots 1 ≤ m.stack.pointer ∧
      (m.stack.values.headD .zero).expectIndex "store" = .ok address ∧
      Value.slotBytes slots "store" = .ok size ∧ m.heap.checkRange address size = .ok () ∧
      next = (m.keeping (m.stack.values.tail.drop slots)).withHeap
        (m.heap.writing address (Value.listBytes (m.stack.values.tail.take slots).reverse)) := by
  obtain ⟨_, required, taken⟩ := Action.check_passed taken
  obtain ⟨address, named, taken⟩ := Action.check_passed taken
  obtain ⟨size, sized, taken⟩ := Action.check_passed taken
  obtain ⟨_, checked, kept⟩ := Action.check_passed taken
  cases kept
  exact ⟨address, size, OperandStack.require_ok required, named, sized, checked, rfl⟩

def load (slots : Nat) (m : Machine) : Except Fault Machine :=
  match m.stack.values with
  | top :: rest => do
      let address ← top.expectIndex "load"
      let size ← Value.slotBytes slots "load"
      m.heap.checkRange address size
      if m.stack.capacity - rest.length < slots then throw (.stackOverflow m.stack.capacity)
      return m.keeping ((m.heap.slotsAt address slots).reverse ++ rest)
  | [] => .error (.stackUnderflow "load" 1 0)

theorem load_ok {slots : Nat} (taken : load slots m = .ok next) :
    ∃ top rest address size, m.stack.values = top :: rest ∧
      top.expectIndex "load" = .ok address ∧ Value.slotBytes slots "load" = .ok size ∧
      m.heap.checkRange address size = .ok () ∧ slots ≤ m.stack.capacity - rest.length ∧
      next = m.keeping ((m.heap.slotsAt address slots).reverse ++ rest) := by
  rw [load] at taken
  split at taken
  case h_1 top rest values =>
    obtain ⟨address, named, taken⟩ := Action.check_passed taken
    obtain ⟨size, sized, taken⟩ := Action.check_passed taken
    obtain ⟨_, checked, taken⟩ := Action.check_passed taken
    split at taken
    case isTrue => cases taken
    case isFalse room =>
      cases taken
      exact ⟨top, rest, address, size, values, named, sized, checked, Nat.not_lt.mp room, rfl⟩
  case h_2 => cases taken

def copy (m : Machine) : Except Fault Machine :=
  match m.stack.values with
  | reference :: rest => do
      let index ← Machine.resolve reference rest.length "copy"
      return m.keeping (rest.reverse.getD index .zero :: rest)
  | [] => .error (.stackUnderflow "copy" 1 0)

theorem copy_ok (taken : copy m = .ok next) :
    ∃ reference rest index, m.stack.values = reference :: rest ∧
      Machine.resolve reference rest.length "copy" = .ok index ∧
      next = m.keeping (rest.reverse.getD index .zero :: rest) := by
  rw [copy] at taken
  split at taken
  case h_1 reference rest values =>
    obtain ⟨index, resolved, kept⟩ := Action.check_passed taken
    cases kept
    exact ⟨reference, rest, index, values, resolved, rfl⟩
  case h_2 => cases taken

def move (m : Machine) : Except Fault Machine :=
  match m.stack.values with
  | reference :: v :: rest => do
      let index ← Machine.resolve reference rest.length "move"
      return m.keeping (rest.reverse.set index v).reverse
  | values => .error (.stackUnderflow "move" 2 values.length)

theorem move_ok (taken : move m = .ok next) :
    ∃ reference v rest index, m.stack.values = reference :: v :: rest ∧
      Machine.resolve reference rest.length "move" = .ok index ∧
      next = m.keeping (rest.reverse.set index v).reverse := by
  rw [move] at taken
  split at taken
  case h_1 reference v rest values =>
    obtain ⟨index, resolved, kept⟩ := Action.check_passed taken
    cases kept
    exact ⟨reference, v, rest, index, values, resolved, rfl⟩
  case h_2 => cases taken

def hook (index : Nat) (m : Machine) : Except Fault Machine := do
  m.checkHook index
  m.stack.require "hook" 1
  return { m with hooks := m.hooks.setIfInBounds index (some m.stack.values.length) }

theorem hook_ok {index : Nat} (taken : hook index m = .ok next) :
    m.checkHook index = .ok () ∧ 1 ≤ m.stack.pointer ∧
      next = { m with hooks := m.hooks.setIfInBounds index (some m.stack.values.length) } := by
  obtain ⟨_, checked, taken⟩ := Action.check_passed taken
  obtain ⟨_, required, kept⟩ := Action.check_passed taken
  cases kept
  exact ⟨checked, OperandStack.require_ok required, rfl⟩

def readHook (index : Nat) (m : Machine) : Except Fault Machine := do
  m.checkHook index
  match m.hooks[index]? with
  | some (some reference) =>
      if m.stack.values.length < reference then
        throw (.invalidAddress .stack (reference - 1) m.stack.values.length)
      push (Value.ofNat reference) m
  | _ => throw (.unsetHook index)

theorem readHook_ok {index : Nat} (taken : readHook index m = .ok next) :
    ∃ reference, m.hooks[index]? = some (some reference) ∧
      reference ≤ m.stack.values.length ∧ push (Value.ofNat reference) m = .ok next := by
  obtain ⟨_, -, taken⟩ := Action.check_passed taken
  split at taken
  case h_1 reference kept =>
    split at taken
    case isTrue => cases taken
    case isFalse live => exact ⟨reference, kept, Nat.not_lt.mp live, taken⟩
  case h_2 => cases taken

def enter (m : Machine) : Except Fault Machine := do
  let next ← push (Value.ofNat m.basePointer) m
  return { next with
    basePointer := m.stack.values.length + 1, frameDepth := m.frameDepth + 1 }

theorem enter_ok (taken : enter m = .ok next) :
    m.stack.values.length < m.stack.capacity ∧
      next = { m.keeping (Value.ofNat m.basePointer :: m.stack.values) with
        basePointer := m.stack.values.length + 1, frameDepth := m.frameDepth + 1 } := by
  obtain ⟨pushed, step, kept⟩ := Action.check_passed taken
  obtain ⟨room, rfl⟩ := push_ok step
  cases kept
  exact ⟨room, rfl⟩

def leave (args locals : Nat) (m : Machine) : Except Fault Machine := do
  m.stack.require "end_frame" (Word.saturatingAdd (Word.saturatingAdd locals 2) args)
  let link := m.stack.values.length - locals - 1
  if link + 1 ≠ m.basePointer then throw (.invalidAddress .stack link m.basePointer)
  let saved ← (m.stack.values.getD locals .zero).expectIndex "end_frame"
  if link < saved then throw (.invalidAddress .stack saved link)
  return { m.keeping (m.stack.values.drop (locals + 2 + args)) with
    basePointer := saved, frameDepth := m.frameDepth - 1 }

theorem leave_ok {args locals : Nat} (taken : leave args locals m = .ok next) :
    ∃ saved, Word.saturatingAdd (Word.saturatingAdd locals 2) args ≤ m.stack.pointer ∧
      m.stack.values.length - locals - 1 + 1 = m.basePointer ∧
      (m.stack.values.getD locals .zero).expectIndex "end_frame" = .ok saved ∧
      saved ≤ m.stack.values.length - locals - 1 ∧
      next = { m.keeping (m.stack.values.drop (locals + 2 + args)) with
        basePointer := saved, frameDepth := m.frameDepth - 1 } := by
  obtain ⟨_, required, taken⟩ := Action.check_passed taken
  dsimp only at taken
  split at taken
  case isTrue => cases taken
  case isFalse closing =>
    obtain ⟨saved, named, taken⟩ := Action.check_passed taken
    split at taken
    case isTrue => cases taken
    case isFalse inside =>
      cases taken
      exact ⟨saved, OperandStack.require_ok required, not_not.mp closing, named,
        Nat.not_lt.mp inside, rfl⟩

def setReturn (m : Machine) : Except Fault Machine :=
  match m.stack.values with
  | v :: rest => .ok { m.keeping rest with returnRegister := v }
  | [] => .error (.stackUnderflow "pop" 1 0)

theorem setReturn_ok (taken : setReturn m = .ok next) :
    ∃ v rest, m.stack.values = v :: rest ∧ next = { m.keeping rest with returnRegister := v } := by
  rw [setReturn] at taken
  split at taken
  case h_1 v rest values => cases taken; exact ⟨v, rest, values, rfl⟩
  case h_2 => cases taken

def parseText (kind : Numeral.Kind) (operation : String) (m : Machine) :
    Except Fault (Value × Machine) :=
  match m.stack.values with
  | count :: top :: rest => do
      let length ← count.expectIndex operation
      let address ← top.expectIndex operation
      let size ← Value.slotBytes length operation
      m.heap.checkRange address size
      let v ← Numeral.read kind (m.heap.slotsAt address length)
      return (v, m.keeping (v :: rest))
  | values => .error (.stackUnderflow operation 2 values.length)

theorem parseText_ok {kind : Numeral.Kind} {operation : String} {v : Value}
    (taken : parseText kind operation m = .ok (v, next)) :
    ∃ count top rest length address size, m.stack.values = count :: top :: rest ∧
      count.expectIndex operation = .ok length ∧ top.expectIndex operation = .ok address ∧
      Value.slotBytes length operation = .ok size ∧ m.heap.checkRange address size = .ok () ∧
      Numeral.read kind (m.heap.slotsAt address length) = .ok v ∧ next = m.keeping (v :: rest) := by
  rw [parseText] at taken
  split at taken
  case h_1 count top rest values =>
    obtain ⟨length, counted, taken⟩ := Action.check_passed taken
    obtain ⟨address, named, taken⟩ := Action.check_passed taken
    obtain ⟨size, sized, taken⟩ := Action.check_passed taken
    obtain ⟨_, checked, taken⟩ := Action.check_passed taken
    obtain ⟨v, read, kept⟩ := Action.check_passed taken
    cases kept
    exact ⟨count, top, rest, length, address, size, values, counted, named, sized, checked, read, rfl⟩
  case h_2 => cases taken

def formatText (kind : Numeral.Kind) (operation : String) (m : Machine) :
    Except Fault (Nat × Machine) :=
  match m.stack.values with
  | v :: rest => do
      let (address, heap) ← m.heap.allocation (Numeral.bufferSlots * Value.slotSize)
      let text := Value.listBytes (Numeral.buffer (Numeral.render kind v))
      return (address, (m.keeping (Value.ofNat address :: rest)).withHeap (heap.writing address text))
  | [] => .error (.stackUnderflow operation 1 0)

theorem formatText_ok {kind : Numeral.Kind} {operation : String} {address : Nat}
    (taken : formatText kind operation m = .ok (address, next)) :
    ∃ v rest heap, m.stack.values = v :: rest ∧
      m.heap.allocation (Numeral.bufferSlots * Value.slotSize) = .ok (address, heap) ∧
      next = (m.keeping (Value.ofNat address :: rest)).withHeap
        (heap.writing address (Value.listBytes (Numeral.buffer (Numeral.render kind v)))) := by
  rw [formatText] at taken
  split at taken
  case h_1 v rest values =>
    obtain ⟨⟨address, heap⟩, allocated, kept⟩ := Action.check_passed taken
    cases kept
    exact ⟨v, rest, heap, values, allocated, rfl⟩
  case h_2 => cases taken

end Step

/-- The machine that an operation leads to, or the fault that it stops with. -/
def Op.step (op : Op) (m : Machine) : Except Fault Machine :=
  match op with
  | .push v => Step.push v m
  | .binary op => Step.binary op m
  | .sign => Step.replace Value.sign m
  | .allocate => (Step.allocate m).map Prod.snd
  | .free => Step.free m
  | .store slots => Step.store slots.toNat m
  | .load slots => Step.load slots.toNat m
  | .copy => Step.copy m
  | .move => Step.move m
  | .hook index => Step.hook index.toNat m
  | .readHook index => Step.readHook index.toNat m
  | .loadBasePointer => Step.push (Value.ofNat m.basePointer) m
  | .enter => Step.enter m
  | .leave args locals => Step.leave args.toNat locals.toNat m
  | .setReturn => Step.setReturn m
  | .getReturn => Step.push m.returnRegister m
  | .textToInteger => (Step.parseText .integer "text_to_integer" m).map Prod.snd
  | .textToFloat => (Step.parseText .real "text_to_float" m).map Prod.snd
  | .integerToText => (Step.formatText .integer "integer_to_text" m).map Prod.snd
  | .floatToText => (Step.formatText .real "float_to_text" m).map Prod.snd
  | .floatToInteger => Step.replace Value.truncate m
  | .integerToFloat => Step.integerToFloat m
  | .halt => .ok m

end StackMachine
