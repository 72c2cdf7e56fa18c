import Mathlib
import StackMachine.Proofs.Step

/-! Running an operation is taking its step. The actions of the machine are followed through one by
one on `m.keeping values`: as soon as an operation has changed anything, each action that is left
succeeds, because the checks made before it and the form of the machine leave it no way to fail. The
one exception is the counter of open frames, which stops at the last word. -/
namespace StackMachine

namespace Heap

theorem allocate_run {h : Heap} (sound : h.Sound) (words : h.size < Word.limit) (size : Nat) :
    allocate size h = Action.answer h (h.allocation size) := by
  by_cases positive : size = 0
  · subst positive
    rfl
  rw [allocate_eq h positive, allocation, if_neg positive]
  cases found : runEnd size 0 0 h.taken.toList with
  | none => rfl
  | some stop =>
    obtain ⟨-, inside, -⟩ := runEnd_least (Nat.pos_of_ne_zero positive) found
    rw [Array.length_toList, sound.mapSize] at inside
    exact if_pos (by omega)

theorem free_run {h : Heap} (sound : h.Sound) (words : h.size < Word.limit) (address size : Nat) :
    free address size h = Action.settle h (h.release address size) := by
  by_cases positive : size = 0
  · subst positive
    rfl
  rw [free_eq sound address positive, release, if_neg positive]
  by_cases member : (⟨address, size⟩ : Block) ∈ h.live
  · have inside : address + size ≤ h.size := sound.inside _ member
    rw [if_pos member, if_pos member, if_pos (by omega), Action.settle_ok]
  · rw [if_neg member, if_neg member, Action.settle_error]

theorem allocation_ok {h next : Heap} (sound : h.Sound) {size address : Nat}
    (allocated : h.allocation size = .ok (address, next)) :
    address + size ≤ h.size ∧ next.size = h.size ∧ next.Sound := by
  rw [allocation] at allocated
  by_cases positive : size = 0
  · rw [if_pos positive] at allocated
    cases allocated
    exact ⟨by omega, rfl, sound⟩
  rw [if_neg positive] at allocated
  cases found : runEnd size 0 0 h.taken.toList with
  | none => rw [found] at allocated; cases allocated
  | some stop =>
    rw [found] at allocated
    cases allocated
    have positive := Nat.pos_of_ne_zero positive
    obtain ⟨fits, inside, free, -⟩ := runEnd_least positive found
    rw [Array.length_toList, sound.mapSize] at inside
    exact ⟨by omega, rfl, sound.taking positive (by omega) free⟩

theorem release_ok {h next : Heap} (sound : h.Sound) {address size : Nat}
    (released : h.release address size = .ok next) : next.size = h.size ∧ next.Sound := by
  rw [release] at released
  by_cases positive : size = 0
  · rw [if_pos positive] at released
    cases released
    exact ⟨rfl, sound⟩
  rw [if_neg positive] at released
  by_cases member : (⟨address, size⟩ : Block) ∈ h.live
  · rw [if_pos member] at released
    cases released
    exact ⟨releasing_size h address size, sound.releasing member⟩
  · rw [if_neg member] at released
    cases released

end Heap

theorem Value.slotBytes_ok {slots size : Nat} {operation : String}
    (counted : Value.slotBytes slots operation = .ok size) :
    size = slots * Value.slotSize ∧ slots * Value.slotSize < Word.limit := by
  rw [Value.slotBytes, Word.mul?] at counted
  by_cases words : slots * Value.slotSize < Word.limit
  · rw [if_pos words] at counted
    cases counted
    exact ⟨rfl, words⟩
  · rw [if_neg words] at counted
    cases counted

theorem Value.slotBytes_of_lt {slots : Nat} (words : slots * Value.slotSize < Word.limit)
    (operation : String) :
    Value.slotBytes slots operation = .ok (slots * Value.slotSize) := by
  rw [Value.slotBytes, Word.mul?, if_pos words]

namespace Machine

/-- The form that every operation keeps. Sizes stay below half of the words, as in any memory. -/
structure WellFormed (m : Machine) : Prop where
  stack : m.keeping m.stack.values = m
  fits : m.stack.values.length ≤ m.stack.capacity
  capacity : m.stack.capacity < 2 ^ 63
  heap : m.heap.Sound
  size : m.heap.size < 2 ^ 63
  depth : m.frameDepth < Word.limit

variable {m : Machine} {v : Value} {values : List Value}

@[simp] theorem keeping_pointer : (m.keeping values).stack.pointer = values.length := rfl

@[simp] theorem keeping_values : (m.keeping values).stack.values = values :=
  OperandStack.holding_values

@[simp] theorem keeping_heap : (m.keeping values).heap = m.heap := rfl

@[simp] theorem keeping_basePointer : (m.keeping values).basePointer = m.basePointer := rfl

@[simp] theorem keeping_hooks : (m.keeping values).hooks = m.hooks := rfl

theorem keeping_capacity (fits : values.length ≤ m.stack.capacity) :
    (m.keeping values).stack.capacity = m.stack.capacity :=
  OperandStack.holding_capacity fits

theorem keeping_keeping (fits : values.length ≤ m.stack.capacity) (others : List Value) :
    (m.keeping values).keeping others = m.keeping others := by
  rw [keeping, keeping_capacity fits]
  rfl

@[simp] theorem withHeap_heap (heap : Heap) : (m.withHeap heap).heap = heap := rfl

@[simp] theorem withHeap_stack (heap : Heap) : (m.withHeap heap).stack = m.stack := rfl

@[simp] theorem withHeap_withHeap (heap heap' : Heap) :
    (m.withHeap heap).withHeap heap' = m.withHeap heap' := rfl

theorem WellFormed.holding (form : m.WellFormed) :
    OperandStack.holding m.stack.capacity m.stack.values = m.stack :=
  congrArg Machine.stack form.stack

theorem WellFormed.pointer (form : m.WellFormed) : m.stack.pointer = m.stack.values.length :=
  congrArg (fun n => n.stack.pointer) form.stack.symm

theorem WellFormed.live_length (form : m.WellFormed) : m.stack.live.length = m.stack.pointer := by
  rw [OperandStack.live_eq_reverse, List.length_reverse, form.pointer]

/-! The actions on the stack. -/

theorem push_keeping (room : values.length < m.stack.capacity) (words : m.stack.capacity < 2 ^ 63) :
    push v (m.keeping values) = .ok () (m.keeping (v :: values)) := by
  have limit : m.stack.capacity < Word.limit := words.trans (by decide)
  simp only [push, onStack, keeping, OperandStack.push_holding room limit]

theorem push_keeping_full (full : values.length = m.stack.capacity) :
    push v (m.keeping values) = .error (.stackOverflow m.stack.capacity) (m.keeping values) := by
  simp only [push, onStack, keeping, OperandStack.push_holding_full full]

theorem pop_keeping (fits : (v :: values).length ≤ m.stack.capacity) :
    pop (m.keeping (v :: values)) = .ok v (m.keeping values) := by
  simp only [pop, onStack, keeping, OperandStack.pop_holding fits]

theorem pop_keeping_nil :
    pop (m.keeping []) = .error (.stackUnderflow "pop" 1 0) (m.keeping []) := by
  simp only [pop, onStack, keeping, OperandStack.pop_holding_nil]

theorem require_keeping {operation : String} {required : Nat} (enough : required ≤ values.length) :
    require operation required (m.keeping values) = .ok () (m.keeping values) := by
  rw [require, Action.bind_ok (Action.get_run _), OperandStack.require, keeping_pointer,
    if_neg (Nat.not_lt.mpr enough)]
  rfl

theorem require_keeping_short {operation : String} {required : Nat}
    (short : values.length < required) :
    require operation required (m.keeping values) =
      .error (.stackUnderflow operation required values.length) (m.keeping values) := by
  rw [require, Action.bind_ok (Action.get_run _), OperandStack.require, keeping_pointer, if_pos short]
  rfl

theorem operand_keeping {depth : Nat} (found : values[depth]? = some v) :
    operand depth (m.keeping values) = .ok v (m.keeping values) := by
  obtain ⟨live, -⟩ := List.getElem?_eq_some_iff.mp found
  have position : values.reverse[values.length - 1 - depth]? = some v := by
    rw [List.getElem?_reverse (by omega), ← found]
    congr 1
    omega
  have peeked : (m.keeping values).stack.peek (values.length - 1 - depth) = .ok v :=
    OperandStack.peek_holding position
  rw [operand, Action.bind_ok (Action.get_run _), keeping_pointer,
    Action.bind_step (Word.sub_of_le (by omega)), Action.bind_step (Word.sub_of_le (by omega)), peeked]
  rfl

theorem drop_keeping {n : Nat} (enough : n ≤ values.length) (fits : values.length ≤ m.stack.capacity) :
    drop n (m.keeping values) = .ok () (m.keeping (values.drop n)) := by
  induction n generalizing values with
  | zero => rfl
  | succ n ih =>
    cases values with
    | nil => simp at enough
    | cons v rest =>
      rw [drop, Action.bind_ok (pop_keeping fits), List.drop_succ_cons]
      exact ih (by simpa using enough) (by rw [List.length_cons] at fits; omega)

theorem pop_drop_keeping {n : Nat} (live : n < values.length)
    (fits : values.length ≤ m.stack.capacity) :
    pop (m.keeping (values.drop n)) = .ok (values.getD n .zero) (m.keeping (values.drop (n + 1))) := by
  rw [List.drop_eq_getElem_cons live, List.getD_eq_getElem _ _ live]
  refine pop_keeping ?_
  rw [List.length_cons, List.length_drop]
  omega

theorem onHeap_keeping {α : Type} {action : Action Heap α} {x : α} {heap : Heap}
    (run : action m.heap = .ok x heap) :
    onHeap action (m.keeping values) =
      .ok x ((m.withHeap heap).keeping values) := by
  simp only [onHeap, keeping, withHeap, run]

theorem onHeap_keeping_error {α : Type} {action : Action Heap α} {fault : Fault}
    (run : action m.heap = .error fault m.heap) :
    onHeap action (m.keeping values) = .error fault (m.keeping values) := by
  simp only [onHeap, keeping, run]

theorem poke_keeping {index : Nat} (live : index < values.length) :
    onStack (OperandStack.poke index v) (m.keeping values) =
      .ok () (m.keeping (values.reverse.set index v).reverse) := by
  simp only [onStack, keeping, OperandStack.poke_holding live]

theorem require_bind {α : Type} {operation : String} {required : Nat} {f : Unit → Action Machine α} :
    (require operation required >>= f) m =
      ((liftM (m.stack.require operation required) : Action Machine Unit) >>= f) m := rfl

theorem resolve_eq (reference : Value) (live : Nat) (operation : String) :
    resolve reference live operation = (do
      let r ← reference.expectIndex operation
      if r = 0 then .error (.invalidOperand operation .zero)
      else if live < r then .error (.invalidAddress .stack (r - 1) live)
      else .ok (r - 1)) := by
  rw [resolve]
  refine congrArg (reference.expectIndex operation >>= ·) (funext fun r => ?_)
  by_cases zero : r = 0
  · rw [if_pos zero, if_pos zero]
    rfl
  · rw [if_neg zero, if_neg zero, Word.sub_of_le (Nat.pos_of_ne_zero zero)]
    by_cases stale : live < r
    · rw [if_pos stale]
      exact if_pos stale
    · rw [if_neg stale]
      exact if_neg stale

theorem resolve_lt {reference : Value} {live index : Nat} {operation : String}
    (resolved : resolve reference live operation = .ok index) : index < live := by
  rw [resolve_eq] at resolved
  cases named : reference.expectIndex operation with
  | error fault => rw [named] at resolved; cases resolved
  | ok r =>
    rw [named] at resolved
    by_cases zero : r = 0
    · rw [zero] at resolved; cases resolved
    · have tail : (if live < r then Except.error (Fault.invalidAddress .stack (r - 1) live)
          else .ok (r - 1)) = .ok index := by rw [← resolved]; exact (if_neg zero).symm
      by_cases stale : live < r
      · rw [if_pos stale] at tail; cases tail
      · rw [if_neg stale] at tail
        cases tail
        omega

theorem checkHook_lt {index : Nat} (checked : m.checkHook index = .ok ()) : index < m.hooks.size := by
  by_contra outside
  rw [checkHook, if_pos (Nat.not_lt.mp outside)] at checked
  cases checked

/-! The operations on the stack. -/

theorem push_run (fits : values.length ≤ m.stack.capacity) (words : m.stack.capacity < 2 ^ 63)
    (v : Value) :
    push v (m.keeping values) = Action.settle (m.keeping values) (Step.push v (m.keeping values)) := by
  rw [Step.push, keeping_values, keeping_capacity fits, keeping_keeping fits]
  by_cases room : values.length < m.stack.capacity
  · rw [if_pos room, push_keeping room words, Action.settle_ok]
  · rw [if_neg room, push_keeping_full (by omega), Action.settle_error]

theorem binary_run (fits : values.length ≤ m.stack.capacity) (words : m.stack.capacity < 2 ^ 63)
    (op : BinaryOperator) :
    binary op (m.keeping values) =
      Action.settle (m.keeping values) (Step.binary op (m.keeping values)) := by
  rw [binary, Step.binary, keeping_values]
  rcases values with _ | ⟨b, _ | ⟨a, rest⟩⟩
  · rw [Action.bind_error (require_keeping_short (by simp))]; rfl
  · rw [Action.bind_error (require_keeping_short (by simp))]; rfl
  · have below : (a :: rest).length ≤ m.stack.capacity := Nat.le_of_succ_le fits
    rw [Action.bind_ok (require_keeping (by simp)), Action.bind_ok (operand_keeping rfl),
      Action.bind_ok (operand_keeping rfl)]
    refine Action.check_settle fun result _ => ?_
    rw [Action.bind_ok (pop_keeping fits), Action.bind_ok (pop_keeping below),
      push_keeping below words, keeping_keeping fits]
    rfl

theorem replace_run (fits : values.length ≤ m.stack.capacity) (words : m.stack.capacity < 2 ^ 63)
    (f : Value → Value) {action : Action Machine Unit}
    (unfolded : action = (do let v ← pop; push (f v))) :
    action (m.keeping values) =
      Action.settle (m.keeping values) (Step.replace f (m.keeping values)) := by
  rw [unfolded, Step.replace, keeping_values]
  cases values with
  | nil => rw [Action.bind_error pop_keeping_nil]; rfl
  | cons v rest =>
    rw [Action.bind_ok (pop_keeping fits), push_keeping fits words]
    simp only [keeping_keeping fits]
    rfl

theorem integerToFloat_run :
    integerToFloat (m.keeping values) =
      Action.settle (m.keeping values) (Step.integerToFloat (m.keeping values)) := by
  rw [integerToFloat, Step.integerToFloat, require, Action.bind_ok (Action.get_run _)]
  cases (m.keeping values).stack.require "integer_to_float" 1 with
  | ok _ => rfl
  | error fault => rfl

theorem setReturn_run (fits : values.length ≤ m.stack.capacity) :
    setReturn (m.keeping values) =
      Action.settle (m.keeping values) (Step.setReturn (m.keeping values)) := by
  rw [setReturn, Step.setReturn, keeping_values]
  cases values with
  | nil => rw [Action.bind_error pop_keeping_nil]; rfl
  | cons v rest =>
    rw [Action.bind_ok (pop_keeping fits)]
    simp only [keeping_keeping fits]
    rfl

theorem copy_run (fits : values.length ≤ m.stack.capacity) (words : m.stack.capacity < 2 ^ 63) :
    copy (m.keeping values) = Action.settle (m.keeping values) (Step.copy (m.keeping values)) := by
  rw [copy, Step.copy, keeping_values]
  cases values with
  | nil => rw [Action.bind_error (require_keeping_short (by simp))]; rfl
  | cons reference rest =>
    rw [Action.bind_ok (require_keeping (by simp)), Action.bind_ok (Action.get_run _),
      keeping_pointer, List.length_cons, Action.bind_step (Word.sub_of_le (by omega)),
      Nat.add_sub_cancel, Action.bind_ok (operand_keeping rfl)]
    refine Action.check_settle fun index resolved => ?_
    have live := resolve_lt resolved
    have peeked : (m.keeping (reference :: rest)).stack.peek index =
        .ok (rest.reverse.getD index .zero) := by
      refine OperandStack.peek_holding ?_
      rw [List.reverse_cons, List.getElem?_append_left (by simpa using live)]
      simp [live]
    rw [Action.bind_check peeked, Action.bind_ok (pop_keeping fits), push_keeping fits words,
      keeping_keeping fits]
    rfl

theorem move_run (fits : values.length ≤ m.stack.capacity) :
    move (m.keeping values) = Action.settle (m.keeping values) (Step.move (m.keeping values)) := by
  rw [move, Step.move, keeping_values]
  rcases values with _ | ⟨reference, _ | ⟨v, rest⟩⟩
  · rw [Action.bind_error (require_keeping_short (by simp))]; rfl
  · rw [Action.bind_error (require_keeping_short (by simp))]; rfl
  · have below : (v :: rest).length ≤ m.stack.capacity := Nat.le_of_succ_le fits
    have two : (reference :: v :: rest).length - 2 = rest.length := by simp
    rw [Action.bind_ok (require_keeping (by simp)), Action.bind_ok (Action.get_run _),
      keeping_pointer, Action.bind_step (Word.sub_of_le (by simp)), two,
      Action.bind_ok (operand_keeping rfl)]
    refine Action.check_settle fun index resolved => ?_
    rw [Action.bind_ok (pop_keeping fits), Action.bind_ok (pop_keeping below),
      poke_keeping (resolve_lt resolved), keeping_keeping fits]
    rfl

theorem hook_run (index : Nat) :
    hook index (m.keeping values) =
      Action.settle (m.keeping values) (Step.hook index (m.keeping values)) := by
  rw [hook, Step.hook, Action.bind_ok (Action.get_run _)]
  refine Action.check_settle fun _ checked => ?_
  rw [require_bind]
  refine Action.check_settle fun _ _ => ?_
  have inside := checkHook_lt checked
  have written : Cells.write (m.keeping values).hooks index (some values.length) =
      .ok (m.hooks.setIfInBounds index (some values.length)) := if_pos inside
  rw [keeping_pointer, Action.bind_step written, keeping_values]
  rfl

theorem readHook_run (fits : values.length ≤ m.stack.capacity) (words : m.stack.capacity < 2 ^ 63)
    (index : Nat) :
    readHook index (m.keeping values) =
      Action.settle (m.keeping values) (Step.readHook index (m.keeping values)) := by
  rw [readHook, Step.readHook, Action.bind_ok (Action.get_run _)]
  refine Action.check_settle fun _ checked => ?_
  have inside : index < m.hooks.size := checkHook_lt checked
  cases kept : m.hooks[index]? with
  | none => simp at kept; omega
  | some entry =>
    have found : Cells.read (m.keeping values).hooks index = .ok entry := by
      rw [Cells.read, keeping_hooks, kept]
    rw [Action.bind_step found, keeping_hooks, kept]
    cases entry with
    | none => rfl
    | some reference =>
      dsimp only
      rw [keeping_values]
      by_cases stale : values.length < reference
      · rw [if_pos (keeping_pointer.trans_lt stale), if_pos stale,
          Action.bind_step (Word.sub_of_le (by omega))]
        rfl
      · have live : ¬(m.keeping values).stack.pointer < reference := stale
        rw [if_neg live, if_neg stale]
        exact push_run fits words _

/-! The loops between stack and heap. Each address they form is the start of a slot in a range that
has been checked. -/

theorem slotAddress_inside {address i : Nat} (words : address + i * Value.slotSize < Word.limit) :
    slotAddress address i = .ok (address + i * Value.slotSize) := by
  rw [slotAddress, Word.mul_of_lt (by omega)]
  exact Word.add_of_lt words

theorem writeUp_keeping {address i : Nat} (codes : List Value)
    (inside : address + (i + codes.length) * Value.slotSize ≤ m.heap.size)
    (words : m.heap.size < Word.limit) :
    writeUp address i codes (m.keeping values) =
      .ok () ((m.withHeap
        (m.heap.writing (address + i * Value.slotSize) (Value.listBytes codes))).keeping values) := by
  induction codes generalizing m i with
  | nil => rfl
  | cons v rest ih =>
    rw [List.length_cons] at inside
    have slot : address + i * Value.slotSize + Value.slotSize ≤ m.heap.size := by
      simp only [Value.slotSize] at inside ⊢
      omega
    have next : address + (i + 1) * Value.slotSize =
        address + i * Value.slotSize + v.toBytes.length := by
      rw [Value.toBytes_length]
      ring
    have tail := ih (i := i + 1)
      (m := m.withHeap (m.heap.writing (address + i * Value.slotSize) v.toBytes))
      (by rw [withHeap_heap, Heap.writing_size]; simp only [Value.slotSize] at inside ⊢; omega)
      (by rw [withHeap_heap, Heap.writing_size]; exact words)
    rw [writeUp, Action.bind_step (slotAddress_inside (by omega)),
      Action.bind_ok (onHeap_keeping (Heap.writeSlot_inside v slot words)), tail]
    rw [withHeap_heap, withHeap_withHeap, next, Heap.writing_append, Value.listBytes_cons]

theorem storeDown_keeping {address n : Nat} (enough : n ≤ values.length)
    (fits : values.length ≤ m.stack.capacity)
    (inside : address + n * Value.slotSize ≤ m.heap.size) (words : m.heap.size < Word.limit) :
    storeDown address n (m.keeping values) =
      .ok () ((m.withHeap
        (m.heap.writing address (Value.listBytes (values.take n).reverse))).keeping
          (values.drop n)) := by
  induction n generalizing m values with
  | zero => rfl
  | succ n ih =>
    cases values with
    | nil => simp at enough
    | cons v rest =>
      rw [List.length_cons] at enough fits
      have slot : address + n * Value.slotSize + Value.slotSize ≤ m.heap.size := by
        rw [Nat.add_mul, Nat.one_mul] at inside
        omega
      have tail := ih
        (m := m.withHeap (m.heap.writing (address + n * Value.slotSize) v.toBytes))
        (show n ≤ rest.length by omega) (Nat.le_of_succ_le fits)
        (by rw [withHeap_heap, Heap.writing_size]; omega)
        (by rw [withHeap_heap, Heap.writing_size]; exact words)
      -- the slots below are written last
      have lower : address + n * Value.slotSize =
          address + (Value.listBytes (rest.take n).reverse).length := by
        rw [Value.listBytes_length, List.length_reverse, List.length_take, Nat.min_eq_left (by omega)]
      rw [storeDown, Action.bind_ok (pop_keeping fits),
        Action.bind_step (slotAddress_inside (by omega)),
        Action.bind_ok (onHeap_keeping (Heap.writeSlot_inside v slot words)), tail]
      simp only [withHeap_heap, withHeap_withHeap, lower, Heap.writing_below, List.take_succ_cons,
        List.reverse_cons, Value.listBytes_append, Value.listBytes_cons, Value.listBytes_nil, List.append_nil,
        List.drop_succ_cons]

theorem loadUp_keeping {address i n : Nat} (room : values.length + n ≤ m.stack.capacity)
    (capacity : m.stack.capacity < 2 ^ 63)
    (inside : address + (i + n) * Value.slotSize ≤ m.heap.size) (words : m.heap.size < Word.limit) :
    loadUp address i n (m.keeping values) =
      .ok () (m.keeping ((m.heap.slotsAt (address + i * Value.slotSize) n).reverse ++ values)) := by
  induction n generalizing i values with
  | zero => rfl
  | succ n ih =>
    have slot : address + i * Value.slotSize + Value.slotSize ≤ m.heap.size := by
      simp only [Value.slotSize] at inside ⊢
      omega
    have next : address + (i + 1) * Value.slotSize =
        address + i * Value.slotSize + Value.slotSize := by ring
    have longer : (m.heap.slotAt (address + i * Value.slotSize) :: values).length + n ≤
        m.stack.capacity := by
      rw [List.length_cons]
      omega
    have tail := ih (i := i + 1) longer (by simp only [Value.slotSize] at inside ⊢; omega)
    rw [loadUp, Action.bind_step (slotAddress_inside (by omega)), Action.bind_ok (Action.get_run _),
      keeping_heap, Action.bind_check (Heap.readSlot_inside slot words),
      Action.bind_ok (push_keeping (by omega) capacity), tail, Heap.slotsAt, next, List.reverse_cons,
      List.append_assoc]
    rfl

theorem slotsFrom_inside {heap : Heap} {address i n : Nat}
    (inside : address + (i + n) * Value.slotSize ≤ heap.size) (words : heap.size < Word.limit) :
    slotsFrom heap address i n = .ok (heap.slotsAt (address + i * Value.slotSize) n) := by
  induction n generalizing i with
  | zero => rfl
  | succ n ih =>
    have slot : address + i * Value.slotSize + Value.slotSize ≤ heap.size := by
      simp only [Value.slotSize] at inside ⊢
      omega
    have next : address + (i + 1) * Value.slotSize =
        address + i * Value.slotSize + Value.slotSize := by ring
    have tail := ih (i := i + 1) (by simp only [Value.slotSize] at inside ⊢; omega)
    have value := Heap.readSlot_inside slot words
    rw [slotsFrom, slotAddress_inside (by omega), Heap.slotsAt, tail, ← next]
    change (do
      let v ← heap.readSlot (address + i * Value.slotSize)
      let rest ← Except.ok (heap.slotsAt (address + (i + 1) * Value.slotSize) n)
      return v :: rest) = _
    rw [value]
    rfl

/-! The operations on the heap. -/

theorem allocate_run (sound : m.heap.Sound) (size : m.heap.size < 2 ^ 63)
    (fits : values.length ≤ m.stack.capacity) (words : m.stack.capacity < 2 ^ 63) :
    allocate (m.keeping values) =
      Action.answer (m.keeping values) (Step.allocate (m.keeping values)) := by
  rw [allocate, Step.allocate, keeping_values]
  cases values with
  | nil => rw [Action.bind_error (require_keeping_short (by simp))]; rfl
  | cons count rest =>
    rw [Action.bind_ok (require_keeping (by simp)), Action.bind_ok (operand_keeping rfl)]
    refine Action.check_answer fun slots _ => Action.check_answer fun bytes _ => ?_
    have run := Heap.allocate_run sound (size.trans (by decide)) bytes
    rw [keeping_heap]
    cases allocated : m.heap.allocation bytes with
    | error fault =>
      rw [allocated] at run
      rw [Action.bind_error (onHeap_keeping_error run)]
      rfl
    | ok found =>
      obtain ⟨address, heap⟩ := found
      rw [allocated] at run
      rw [Action.bind_ok (onHeap_keeping run),
        Action.bind_ok (pop_keeping (by exact fits)),
        Action.bind_ok (push_keeping (by exact fits) (by exact words))]
      simp only [keeping_keeping fits]
      rfl

theorem free_run (sound : m.heap.Sound) (size : m.heap.size < 2 ^ 63)
    (fits : values.length ≤ m.stack.capacity) :
    free (m.keeping values) = Action.settle (m.keeping values) (Step.free (m.keeping values)) := by
  rw [free, Step.free, keeping_values]
  rcases values with _ | ⟨top, _ | ⟨count, rest⟩⟩
  · rw [Action.bind_error (require_keeping_short (by simp))]; rfl
  · rw [Action.bind_error (require_keeping_short (by simp))]; rfl
  · have below : (count :: rest).length ≤ m.stack.capacity := Nat.le_of_succ_le fits
    rw [Action.bind_ok (require_keeping (by simp)), Action.bind_ok (operand_keeping rfl)]
    refine Action.check_settle fun address _ => ?_
    rw [Action.bind_ok (operand_keeping rfl)]
    refine Action.check_settle fun slots _ => Action.check_settle fun bytes _ => ?_
    have run := Heap.free_run sound (size.trans (by decide)) address bytes
    rw [keeping_heap]
    cases released : m.heap.release address bytes with
    | error fault =>
      rw [released] at run
      rw [Action.bind_error (onHeap_keeping_error run)]
      rfl
    | ok heap =>
      rw [released] at run
      rw [Action.bind_ok (onHeap_keeping run),
        Action.bind_ok (pop_keeping (by exact fits)), Action.bind_ok (pop_keeping (by exact below))]
      simp only [keeping_keeping fits]
      rfl

theorem store_run (slots : Nat) (size : m.heap.size < 2 ^ 63)
    (fits : values.length ≤ m.stack.capacity) :
    store slots (m.keeping values) =
      Action.settle (m.keeping values) (Step.store slots (m.keeping values)) := by
  have limit : m.heap.size < Word.limit := size.trans (by decide)
  rw [store, Step.store, require_bind]
  refine Action.check_settle fun _ required => ?_
  have enough : Word.saturatingAdd slots 1 ≤ values.length := OperandStack.require_ok required
  rw [keeping_values]
  cases values with
  | nil =>
    simp only [Word.saturatingAdd, Word.last, Word.limit, List.length_nil] at enough
    omega
  | cons top rest =>
    rw [Action.bind_ok (operand_keeping rfl)]
    refine Action.check_settle fun address _ => Action.check_settle fun bytes counted => ?_
    rw [Action.bind_ok (Action.get_run _)]
    refine Action.check_settle fun _ checked => ?_
    obtain ⟨rfl, words⟩ := Value.slotBytes_ok counted
    obtain ⟨inside, -⟩ := Heap.checkRange_ok.mp checked
    have count : slots ≤ rest.length := by
      simp only [Word.saturatingAdd, Word.last, Word.limit, Value.slotSize, List.length_cons]
        at enough words
      omega
    rw [Action.bind_ok (pop_keeping fits),
      storeDown_keeping count (Nat.le_of_succ_le fits) inside limit]
    simp only [keeping_keeping fits]
    rfl

theorem load_run (slots : Nat) (size : m.heap.size < 2 ^ 63)
    (fits : values.length ≤ m.stack.capacity) (words : m.stack.capacity < 2 ^ 63) :
    load slots (m.keeping values) =
      Action.settle (m.keeping values) (Step.load slots (m.keeping values)) := by
  have limit : m.heap.size < Word.limit := size.trans (by decide)
  rw [load, Step.load, keeping_values]
  cases values with
  | nil => rw [Action.bind_error (require_keeping_short (by simp))]; rfl
  | cons top rest =>
    have below : rest.length + 1 ≤ m.stack.capacity := fits
    rw [Action.bind_ok (require_keeping (by simp)), Action.bind_ok (operand_keeping rfl)]
    refine Action.check_settle fun address _ => Action.check_settle fun bytes counted => ?_
    rw [Action.bind_ok (Action.get_run _)]
    refine Action.check_settle fun _ checked => ?_
    obtain ⟨rfl, -⟩ := Value.slotBytes_ok counted
    obtain ⟨inside, -⟩ := Heap.checkRange_ok.mp checked
    have room : m.stack.capacity - (rest.length + 1) + 1 = m.stack.capacity - rest.length := by omega
    rw [keeping_capacity fits, keeping_pointer, List.length_cons,
      Action.bind_step (Word.sub_of_le below),
      Action.bind_step (Word.add_of_lt (by rw [room, Word.limit]; omega)), room]
    by_cases full : m.stack.capacity - rest.length < slots
    · rw [if_pos full, if_pos full]
      rfl
    · have range : address + (0 + slots) * Value.slotSize ≤ m.heap.size := by
        rw [Nat.zero_add]
        exact inside
      rw [if_neg full, if_neg full]
      beta_reduce
      rw [Action.bind_ok (pop_keeping fits), loadUp_keeping (by omega) words range limit,
        keeping_keeping fits, Nat.zero_mul, Nat.add_zero]
      rfl

theorem parseText_run (kind : Numeral.Kind) (operation : String) (size : m.heap.size < 2 ^ 63)
    (fits : values.length ≤ m.stack.capacity) (words : m.stack.capacity < 2 ^ 63) :
    parseText kind operation (m.keeping values) =
      Action.answer (m.keeping values) (Step.parseText kind operation (m.keeping values)) := by
  have limit : m.heap.size < Word.limit := size.trans (by decide)
  rw [parseText, Step.parseText, keeping_values]
  rcases values with _ | ⟨count, _ | ⟨top, rest⟩⟩
  · rw [Action.bind_error (require_keeping_short (by simp))]; rfl
  · rw [Action.bind_error (require_keeping_short (by simp))]; rfl
  · have below : (top :: rest).length ≤ m.stack.capacity := Nat.le_of_succ_le fits
    rw [Action.bind_ok (require_keeping (by simp)), Action.bind_ok (operand_keeping rfl)]
    refine Action.check_answer fun length _ => ?_
    rw [Action.bind_ok (operand_keeping rfl)]
    refine Action.check_answer fun address _ => Action.check_answer fun bytes counted => ?_
    rw [Action.bind_ok (Action.get_run _)]
    refine Action.check_answer fun _ checked => ?_
    obtain ⟨rfl, -⟩ := Value.slotBytes_ok counted
    obtain ⟨inside, -⟩ := Heap.checkRange_ok.mp checked
    have range : address + (0 + length) * Value.slotSize ≤ m.heap.size := by
      rw [Nat.zero_add]
      exact inside
    have codes := slotsFrom_inside range limit
    rw [Nat.zero_mul, Nat.add_zero] at codes
    rw [keeping_heap, Action.bind_check codes]
    refine Action.check_answer fun v _ => ?_
    rw [Action.bind_ok (pop_keeping fits), Action.bind_ok (pop_keeping below),
      Action.bind_ok (push_keeping below words), keeping_keeping fits]
    rfl

theorem formatText_run (kind : Numeral.Kind) (operation : String) (sound : m.heap.Sound)
    (size : m.heap.size < 2 ^ 63) (fits : values.length ≤ m.stack.capacity)
    (words : m.stack.capacity < 2 ^ 63) :
    formatText kind operation (m.keeping values) =
      Action.answer (m.keeping values) (Step.formatText kind operation (m.keeping values)) := by
  have limit : m.heap.size < Word.limit := size.trans (by decide)
  rw [formatText, Step.formatText, keeping_values]
  cases values with
  | nil => rw [Action.bind_error (require_keeping_short (by simp))]; rfl
  | cons v rest =>
    have counted : Value.slotBytes Numeral.bufferSlots operation =
        .ok (Numeral.bufferSlots * Value.slotSize) := rfl
    have run := Heap.allocate_run sound limit (Numeral.bufferSlots * Value.slotSize)
    rw [Action.bind_ok (require_keeping (by simp)), Action.bind_ok (operand_keeping rfl),
      Action.bind_check counted]
    dsimp only
    rw [keeping_heap]
    cases allocated : m.heap.allocation (Numeral.bufferSlots * Value.slotSize) with
    | error fault =>
      rw [allocated] at run
      rw [Action.bind_error (onHeap_keeping_error run)]
      rfl
    | ok found =>
      obtain ⟨address, heap⟩ := found
      obtain ⟨inside, same, -⟩ := Heap.allocation_ok sound allocated
      rw [allocated] at run
      have buffer : address + (0 + (Numeral.buffer (Numeral.render kind v)).length) *
          Value.slotSize ≤ heap.size := by
        rw [Numeral.buffer_length, Nat.zero_add, same]
        exact inside
      rw [Action.bind_ok (onHeap_keeping run),
        Action.bind_ok (writeUp_keeping _ buffer (same.trans_lt limit)),
        Action.bind_ok (pop_keeping (by exact fits)),
        Action.bind_ok (push_keeping (by exact fits) (by exact words))]
      simp only [keeping_keeping fits, withHeap_heap, withHeap_withHeap, Nat.zero_mul, Nat.add_zero]
      rfl

/-! Frames. -/

/-- Entering a frame with room on the stack; the count of frames may stop at the last word. -/
theorem enter_keeping (room : values.length < m.stack.capacity) (words : m.stack.capacity < 2 ^ 63) :
    enter (m.keeping values) =
      match Word.add m.frameDepth 1 with
      | .ok depth => .ok () ({ m with basePointer := values.length + 1, frameDepth := depth }.keeping
          (Value.ofNat m.basePointer :: values))
      | .error trap => .error (.trap trap) ({ m with basePointer := values.length + 1 }.keeping
          (Value.ofNat m.basePointer :: values)) := by
  rw [enter, Action.bind_ok (Action.get_run _), keeping_basePointer,
    Action.bind_ok (push_keeping room words)]
  change ((liftM (Word.add m.frameDepth 1) : Action Machine Nat) >>= _) _ = _
  cases Word.add m.frameDepth 1 with
  | ok depth => rfl
  | error trap => rfl

theorem enter_keeping_full (full : values.length = m.stack.capacity) :
    enter (m.keeping values) = .error (.stackOverflow m.stack.capacity) (m.keeping values) := by
  rw [enter, Action.bind_ok (Action.get_run _), Action.bind_error (push_keeping_full full)]

theorem enter_run (fits : values.length ≤ m.stack.capacity) (words : m.stack.capacity < 2 ^ 63)
    (counted : m.frameDepth < Word.last) :
    enter (m.keeping values) = Action.settle (m.keeping values) (Step.enter (m.keeping values)) := by
  have depth : Word.add m.frameDepth 1 = .ok (m.frameDepth + 1) :=
    Word.add_of_lt (by rw [Word.last, Word.limit] at counted; rw [Word.limit]; omega)
  rw [Step.enter, Step.push, keeping_values, keeping_capacity fits, keeping_keeping fits]
  by_cases room : values.length < m.stack.capacity
  · rw [enter_keeping room words, depth, if_pos room]
    rfl
  · rw [enter_keeping_full (by omega), if_neg room]
    rfl

theorem rebase_keeping (base : Nat) :
    (modify fun m => { m with basePointer := base } : Action Machine PUnit) (m.keeping values) =
      .ok () ({ m with basePointer := base }.keeping values) := rfl

theorem leave_run (args locals : Nat) (fits : values.length ≤ m.stack.capacity)
    (words : m.stack.capacity < 2 ^ 63) :
    leave args locals (m.keeping values) =
      Action.settle (m.keeping values) (Step.leave args locals (m.keeping values)) := by
  rw [leave, Step.leave, require_bind]
  refine Action.check_settle fun _ required => ?_
  have enough : locals + 2 + args ≤ values.length := by
    have saturated := OperandStack.require_ok required
    simp only [Word.saturatingAdd, Word.last, Word.limit, keeping_pointer] at saturated
    omega
  have limit : values.length - locals - 1 + 1 < Word.limit := by
    rw [Word.limit]
    omega
  rw [Action.bind_ok (Action.get_run _), keeping_pointer, keeping_values,
    Action.bind_step (Word.sub_of_le (by omega)), Action.bind_step (Word.sub_of_le (by omega)),
    Action.bind_step (Word.add_of_lt limit)]
  by_cases closing : values.length - locals - 1 + 1 ≠ (m.keeping values).basePointer
  · rw [if_pos closing, if_pos closing]
    rfl
  rw [if_neg closing, if_neg closing]
  have peeked : (m.keeping values).stack.peek (values.length - locals - 1) =
      .ok (values.getD locals .zero) := by
    refine OperandStack.peek_holding ?_
    rw [List.getElem?_reverse (by omega), List.getD_eq_getElem _ _ (by omega),
      show values.length - 1 - (values.length - locals - 1) = locals by omega]
    exact List.getElem?_eq_getElem _
  beta_reduce
  rw [Action.bind_check peeked]
  refine Action.check_settle fun saved _ => ?_
  by_cases outside : values.length - locals - 1 < saved
  · rw [if_pos outside, if_pos outside]
    rfl
  rw [if_neg outside, if_neg outside]
  have dropped : (values.drop (locals + 2)).length ≤ m.stack.capacity := by
    rw [List.length_drop]
    omega
  beta_reduce
  rw [Action.bind_ok (drop_keeping (by omega) fits), Action.bind_ok (pop_drop_keeping (by omega) fits),
    Action.bind_ok (rebase_keeping saved), Action.bind_ok (pop_drop_keeping (by omega) (by exact fits)),
    Action.bind_ok (drop_keeping (by rw [List.length_drop]; omega) (by exact dropped)), List.drop_drop,
    keeping_keeping fits]
  rfl

end Machine

namespace Op

theorem effect_eq {m : Machine} (form : m.WellFormed) (op : Op)
    (counted : op = .enter → m.frameDepth < Word.last) :
    op.effect m = Action.settle m (op.step m) := by
  have fits := form.fits
  have words := form.capacity
  have sound := form.heap
  have size := form.size
  rw [← form.stack]
  cases op with
  | push v => exact Machine.push_run fits words v
  | binary op => exact Machine.binary_run fits words op
  | sign => exact Machine.replace_run fits words Value.sign rfl
  | allocate => exact Action.discard_run (Machine.allocate_run sound size fits words)
  | free => exact Machine.free_run sound size fits
  | store slots => exact Machine.store_run _ size fits
  | load slots => exact Machine.load_run _ size fits words
  | copy => exact Machine.copy_run fits words
  | move => exact Machine.move_run fits
  | hook index => exact Machine.hook_run _
  | readHook index => exact Machine.readHook_run fits words _
  | loadBasePointer => exact Machine.push_run fits words _
  | enter => exact Machine.enter_run fits words (counted rfl)
  | leave args locals => exact Machine.leave_run _ _ fits words
  | setReturn => exact Machine.setReturn_run fits
  | getReturn => exact Machine.push_run fits words _
  | textToInteger => exact Action.discard_run (Machine.parseText_run _ _ size fits words)
  | textToFloat => exact Action.discard_run (Machine.parseText_run _ _ size fits words)
  | integerToText => exact Action.discard_run (Machine.formatText_run _ _ sound size fits words)
  | floatToText => exact Action.discard_run (Machine.formatText_run _ _ sound size fits words)
  | floatToInteger => exact Machine.replace_run fits words Value.truncate rfl
  | integerToFloat => exact Machine.integerToFloat_run
  | halt => rfl

theorem apply_eq {m : Machine} (form : m.WellFormed) (op : Op)
    (counted : op = .enter → m.frameDepth < Word.last) :
    op.apply m =
      match op.step m with
      | .ok next => .ok op.flow next
      | .error fault => .error fault m := by
  have run := effect_eq form op counted
  cases step : op.step m with
  | ok next =>
    rw [step] at run
    exact Action.bind_ok run
  | error fault =>
    rw [step] at run
    exact Action.bind_error run

end Op
end StackMachine
