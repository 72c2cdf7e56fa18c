import Mathlib
import StackMachine.Proofs.Index
import StackMachine.Proofs.Isolation

/-! Transfers between stack and heap. A value and the four bytes of a slot determine each other, and so do
the values of consecutive slots and the bytes of their range, wherever the range begins. Writing values and
reading the slots again therefore gives the values back, and writing back what was read changes nothing. For
the machine this says that `store` and `load` undo each other, in either order. -/
namespace StackMachine

namespace Value

theorem toBytes_ofBytes {bytes : List UInt8} (four : bytes.length = slotSize) :
    (ofBytes bytes).toBytes = bytes := by
  obtain ⟨a, b, c, d, rfl⟩ : ∃ a b c d, bytes = [a, b, c, d] := by
    rcases bytes with _ | ⟨a, _ | ⟨b, _ | ⟨c, _ | ⟨d, _ | ⟨e, rest⟩⟩⟩⟩⟩ <;> simp [slotSize] at four
    exact ⟨a, b, c, d, rfl⟩
  have boundA := a.toNat_lt
  have boundB := b.toNat_lt
  have boundC := c.toNat_lt
  have boundD := d.toNat_lt
  have digit {k : Nat} {byte : UInt8} (last : k % 256 = byte.toNat) : UInt8.ofNat k = byte :=
    UInt8.toNat_inj.mp (by rw [UInt8.toNat_ofNat', last])
  simp only [toBytes, ofBytes, List.foldr_cons, List.foldr_nil, UInt32.toNat_ofNat', List.map_cons,
    List.map_nil, List.cons.injEq, and_true]
  exact ⟨digit (by omega), digit (by omega), digit (by omega), digit (by omega)⟩

theorem toBytes_injective : Function.Injective toBytes := Function.LeftInverse.injective ofBytes_toBytes

theorem listBytes_injective {values others : List Value} (same : listBytes values = listBytes others) :
    values = others := by
  induction values generalizing others with
  | nil =>
    cases others with
    | nil => rfl
    | cons w rest => simp [toBytes] at same
  | cons v rest ih =>
    cases others with
    | nil => simp [toBytes] at same
    | cons w others =>
      obtain ⟨first, later⟩ := List.append_inj same rfl
      rw [toBytes_injective first, ih later]

end Value

namespace Cells

variable {α : Type} {cells : Array α} {start stop : Nat} {xs : List α}

theorem extract_overlay (inside : start + xs.length ≤ cells.size) :
    ((overlay cells start xs).extract start (start + xs.length)).toList = xs := by
  refine List.ext_getElem? fun i => ?_
  rw [Array.getElem?_toList, Array.getElem?_extract, overlay_size, overlay_getElem?]
  by_cases short : i < xs.length
  · rw [if_pos (by omega), if_pos (by omega), Nat.add_sub_cancel_left]
  · rw [if_neg (by omega), List.getElem?_eq_none (by omega)]

theorem overlay_extract (order : start ≤ stop) (inside : stop ≤ cells.size) :
    overlay cells start (cells.extract start stop).toList = cells := by
  refine Array.ext_getElem? fun i => ?_
  have length : (cells.extract start stop).toList.length = stop - start := by
    rw [Array.length_toList, Array.size_extract, Nat.min_eq_left inside]
  rw [overlay_getElem?, length]
  split
  case isTrue within =>
    rw [Array.getElem?_toList, Array.getElem?_extract, if_pos (by omega),
      Nat.add_sub_cancel' within.1]
  case isFalse => rfl

end Cells

namespace Heap

variable {h : Heap} {address n : Nat} {values : List Value}

theorem listBytes_slotsAt (inside : address + n * Value.slotSize ≤ h.size) :
    Value.listBytes (h.slotsAt address n) =
      (h.bytes.extract address (address + n * Value.slotSize)).toList := by
  induction n generalizing address with
  | zero => simp [slotsAt]
  | succ n ih =>
    have longer : address + (n + 1) * Value.slotSize =
        address + Value.slotSize + n * Value.slotSize := by ring
    rw [longer] at inside ⊢
    have slot : (h.bytes.extract address (address + Value.slotSize)).toList.length = Value.slotSize := by
      rw [Array.length_toList, Array.size_extract]
      simp only [Heap.size] at inside
      omega
    rw [slotsAt, Value.listBytes_cons, slotAt, Value.toBytes_ofBytes slot, ih inside,
      ← Array.toList_append, Array.extract_append_extract, Nat.min_eq_left (Nat.le_add_right ..),
      Nat.max_eq_right (Nat.le_add_right ..)]

theorem loaded_length (h : Heap) (address n : Nat) (rest : List Value) :
    ((h.slotsAt address n).reverse ++ rest).length = rest.length + n := by
  simp [Nat.add_comm]

theorem slotsAt_writing (inside : address + values.length * Value.slotSize ≤ h.size) :
    (h.writing address (Value.listBytes values)).slotsAt address values.length = values := by
  apply Value.listBytes_injective
  rw [listBytes_slotsAt (by rwa [writing_size]), ← Value.listBytes_length]
  exact Cells.extract_overlay (by rwa [Value.listBytes_length])

theorem writing_slotsAt (inside : address + n * Value.slotSize ≤ h.size) :
    h.writing address (Value.listBytes (h.slotsAt address n)) = h := by
  rw [listBytes_slotsAt inside, writing, Cells.overlay_extract (Nat.le_add_right ..) inside]

end Heap

namespace Machine

variable {m : Machine} {config : Config} {top : Value} {values rest : List Value} {address : Nat}

theorem WellFormed.after_pop_eq (form : m.WellFormed) (live : m.stack.values = top :: rest) :
    Action.after pop m = m.keeping rest := by
  have fits := form.fits
  have stack := form.stack
  rw [live] at fits stack
  have run := pop_keeping fits
  rw [stack] at run
  exact Action.after_ok run

/-- The slots from an address on are as many bytes as the checks of a transfer let pass. -/
theorem WellFormed.range_checked (form : m.WellFormed) {n : Nat}
    (inside : address + n * Value.slotSize ≤ m.heap.size) (operation : String) :
    Value.slotBytes n operation = .ok (n * Value.slotSize) ∧
      m.heap.checkRange address (n * Value.slotSize) = .ok () := by
  have words : address + n * Value.slotSize < Word.limit := by
    have size := form.size
    rw [Word.limit]
    omega
  exact ⟨Value.slotBytes_of_lt (by omega) operation, Heap.checkRange_ok.mpr ⟨inside, words⟩⟩

theorem store_apply (form : m.WellFormed) {n : UInt64}
    (live : m.stack.values = top :: (values.reverse ++ rest)) (counted : values.length = n.toNat)
    (named : top.toIndex? = some address) (inside : address + n.toNat * Value.slotSize ≤ m.heap.size) :
    (Op.store n).apply m =
      .ok .next ((m.keeping rest).withHeap (m.heap.writing address (Value.listBytes values))) := by
  have required : m.stack.require "store" (Word.saturatingAdd n.toNat 1) = .ok () := by
    rw [OperandStack.require, if_neg]
    rw [form.pointer, live, Word.saturatingAdd]
    simp [counted]
  obtain ⟨sized, checked⟩ := form.range_checked inside "store"
  refine Op.apply_of_step form ?_ (by simp)
  rw [Op.step, Step.store, live, required]
  simp only [List.headD_cons, Value.expectIndex_of_toIndex? named, sized, checked, List.tail_cons, bind,
    Except.bind]
  rw [← counted, ← List.length_reverse, List.take_left, List.drop_left, List.reverse_reverse]
  rfl

theorem load_apply (form : m.WellFormed) {n : UInt64} (live : m.stack.values = top :: rest)
    (named : top.toIndex? = some address) (inside : address + n.toNat * Value.slotSize ≤ m.heap.size)
    (room : rest.length + n.toNat ≤ m.stack.capacity) :
    (Op.load n).apply m =
      .ok .next (m.keeping ((m.heap.slotsAt address n.toNat).reverse ++ rest)) := by
  obtain ⟨sized, checked⟩ := form.range_checked inside "load"
  refine Op.apply_of_step form ?_ (by simp)
  rw [Op.step, Step.load, live]
  simp only [Value.expectIndex_of_toIndex? named, sized, checked, bind, Except.bind]
  rw [if_neg (by omega)]
  rfl

theorem keeping_withHeap_keeping (fits : values.length ≤ m.stack.capacity) (heap : Heap)
    (others : List Value) :
    ((m.keeping values).withHeap heap).keeping others = (m.keeping others).withHeap heap :=
  congrArg (·.withHeap heap) (keeping_keeping fits others)

theorem runs_store_load (form : m.WellFormed) {n : UInt64}
    (live : m.stack.values = top :: (values.reverse ++ rest)) (counted : values.length = n.toNat)
    (named : top.toIndex? = some address) (inside : address + n.toNat * Value.slotSize ≤ m.heap.size) :
    Runs m [.store n, .push top, .load n] ((m.keeping (values.reverse ++ rest)).withHeap
      (m.heap.writing address (Value.listBytes values))) := by
  have fits : values.length + rest.length < m.stack.capacity := by
    have fits := form.fits
    rw [live, List.length_cons, List.length_append, List.length_reverse] at fits
    omega
  have below : rest.length ≤ m.stack.capacity := by omega
  have atTop : (top :: rest).length ≤ m.stack.capacity := by
    rw [List.length_cons]
    omega
  set heap := m.heap.writing address (Value.listBytes values) with written
  have size : heap.size = m.heap.size := Heap.writing_size ..
  have slots : heap.slotsAt address n.toNat = values := by
    rw [written, ← counted]
    exact Heap.slotsAt_writing (counted ▸ inside)
  have stored := store_apply form live counted named inside
  have form' := form.of_apply stored
  have pushed : (Op.push top).apply ((m.keeping rest).withHeap heap) =
      .ok .next ((m.keeping (top :: rest)).withHeap heap) := by
    have run := push_apply form' (by
      rw [withHeap_stack, keeping_values, keeping_capacity below]
      omega) top
    rwa [keeping_withHeap_keeping below, withHeap_stack, keeping_values] at run
  have loaded := load_apply (n := n) (form'.of_apply pushed) keeping_values named (size ▸ inside) (by
    rw [withHeap_stack, keeping_capacity atTop]
    omega)
  rw [keeping_withHeap_keeping atTop, withHeap_heap, slots] at loaded
  exact .cons stored (.cons pushed (.cons loaded (.nil _)))

theorem runs_load_store (form : m.WellFormed) {n : UInt64} (live : m.stack.values = top :: rest)
    (named : top.toIndex? = some address) (inside : address + n.toNat * Value.slotSize ≤ m.heap.size)
    (room : rest.length + n.toNat < m.stack.capacity) :
    Runs m [.load n, .push top, .store n] (m.keeping rest) := by
  have slots := m.heap.loaded_length address n.toNat rest
  have fits : ((m.heap.slotsAt address n.toNat).reverse ++ rest).length ≤ m.stack.capacity := by omega
  have loaded := load_apply form live named inside room.le
  have form' := form.of_apply loaded
  have pushed := push_apply form' (by rw [keeping_values, keeping_capacity fits]; omega) top
  rw [keeping_values, keeping_keeping fits] at pushed
  have stored := store_apply (form'.of_apply pushed) keeping_values (Heap.slotsAt_length ..) named inside
  rw [keeping_keeping (by rw [List.length_cons]; omega), keeping_heap, Heap.writing_slotsAt inside] at stored
  exact .cons loaded (.cons pushed (.cons stored (.nil _)))

/-- Store and load undo each other. Take values on the stack with an address above them that has room for
them in the heap, aligned or not: when they are stored and loaded again from that address, all goes well, the
values are back in their places, the address is gone, and beside the bytes of the range nothing has changed.
The other way round, values that were loaded and are stored again at the same address leave the machine as if
the address had only been popped. -/
theorem store_load_inverse (addressable : config.Addressable) (reachable : Reachable config m) (n : UInt64) :
    (∀ below values top address, m.stack.live = below ++ values ++ [top] → values.length = n.toNat →
      top.toIndex? = some address → address + n.toNat * Value.slotSize ≤ m.heap.size →
      ∃ next, Runs m [.store n, .push top, .load n] next ∧ next.stack.live = below ++ values ∧
        next = (Action.after pop m).withHeap next.heap ∧
        next.heap.taken = m.heap.taken ∧ next.heap.live = m.heap.live ∧
        ∀ i, ¬(address ≤ i ∧ i < address + n.toNat * Value.slotSize) →
          next.heap.bytes[i]? = m.heap.bytes[i]?) ∧
    (∀ flow loaded, (Op.load n).apply m = .ok flow loaded →
      loaded.stack.pointer < loaded.stack.capacity →
      ∃ top next, m.stack.top? = some top ∧ Runs m [.load n, .push top, .store n] next ∧
        next.heap = m.heap ∧ m.stack.live = next.stack.live ++ [top] ∧ next = Action.after pop m) := by
  have form := reachable.wellFormed addressable
  constructor
  · intro below values top address stack counted named inside
    have live : m.stack.values = top :: (values.reverse ++ below.reverse) := by
      rw [OperandStack.values, stack]
      simp
    refine ⟨_, runs_store_load form live counted named inside, ?_, ?_, rfl, rfl, fun i outside => ?_⟩
    · rw [withHeap_stack, keeping, OperandStack.holding_live]
      simp
    · rw [form.after_pop_eq live]
      rfl
    · rw [withHeap_heap, Heap.writing, Cells.overlay_beside]
      rwa [Value.listBytes_length, counted]
  · intro flow loaded applied free
    obtain ⟨taken, -⟩ := step_of_apply form applied
    obtain ⟨top, rest, address, size, live, named, sized, checked, room, rfl⟩ := Step.load_ok taken
    obtain ⟨rfl, -⟩ := Value.slotBytes_ok sized
    have inside := (Heap.checkRange_ok.mp checked).1
    have stack : m.stack.live = rest.reverse ++ [top] := by
      rw [← List.reverse_reverse m.stack.live, ← OperandStack.values, live, List.reverse_cons]
    have slots := m.heap.loaded_length address n.toNat rest
    have fits : ((m.heap.slotsAt address n.toNat).reverse ++ rest).length ≤ m.stack.capacity := by
      have fits := form.fits
      rw [live, List.length_cons] at fits
      omega
    rw [keeping_pointer, keeping_capacity fits, slots] at free
    refine ⟨top, m.keeping rest, ?_, ?_, rfl, ?_, (form.after_pop_eq live).symm⟩
    · rw [OperandStack.top?_eq_head?, live, List.head?_cons]
    · exact runs_load_store form live (Value.toIndex?_of_expectIndex named) inside free
    · rw [stack, keeping, OperandStack.holding_live]

/-- Two values, one of them not a number, across the end of a slot and the start of the next. -/
theorem unaligned_values_survive_transfer :
    let nan : Value := ⟨0x7fc01234⟩
    let m := [Op.push (.ofNat 9), .push nan, .push (.ofNat 7), .push (.ofNat 3)].foldl
      (fun m op => Action.after op.apply m) (fresh ⟨4, 16, 0⟩)
    m.stack.live = [.ofNat 9, nan, .ofNat 7, .ofNat 3] ∧
      ∃ next, Runs m [.store 2, .push (.ofNat 3), .load 2] next ∧
        next.stack.live = [.ofNat 9, nan, .ofNat 7] ∧ next.heap.bytes[2]? = m.heap.bytes[2]? := by
  intro nan m
  have addressable : Config.Addressable ⟨4, 16, 0⟩ := ⟨by decide, by decide⟩
  have reachable : Reachable ⟨4, 16, 0⟩ m := Reachable.fresh.operations _
  have live : m.stack.live = [.ofNat 9] ++ [nan, .ofNat 7] ++ [.ofNat 3] := by decide +kernel
  obtain ⟨storeLoad, -⟩ := store_load_inverse addressable reachable 2
  obtain ⟨next, runs, stack, -, -, -, beside⟩ := storeLoad [.ofNat 9] [nan, .ofNat 7] (.ofNat 3) 3 live rfl
    (by decide +kernel) (by decide +kernel)
  exact ⟨live, next, runs, stack, beside 2 (by decide)⟩

end Machine
end StackMachine
