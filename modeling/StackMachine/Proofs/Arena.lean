import Mathlib
import StackMachine.Proofs.Allocator

/-! Slots in the arena. Bytes written next to each other are one write, in whichever order they were
written, and the slots of a range that exists can all be read. `Heap.slotsAt` gives the values there
and `Value.listBytes` the bytes of a list of values. -/
namespace StackMachine

namespace Cells

variable {α : Type}

theorem overlay_append (cells : Array α) (start : Nat) (xs ys : List α) :
    overlay cells start (xs ++ ys) = overlay (overlay cells start xs) (start + xs.length) ys := by
  induction xs generalizing cells start with
  | nil => rfl
  | cons x rest ih =>
    rw [List.cons_append, overlay, ih, overlay, List.length_cons, Nat.add_right_comm, Nat.add_assoc]

/-- The part that comes first may also be written last. -/
theorem overlay_below (cells : Array α) (start : Nat) (xs ys : List α) :
    overlay (overlay cells (start + xs.length) ys) start xs = overlay cells start (xs ++ ys) := by
  refine Array.ext_getElem? fun i => ?_
  rw [overlay_append]
  simp only [overlay_getElem?, overlay_size]
  by_cases lower : start ≤ i ∧ i < start + xs.length ∧ i < cells.size
  · rw [if_pos lower, if_neg (by omega), if_pos lower]
  · rw [if_neg lower, if_neg lower]

theorem slice_inside (cells : Array α) (start count : Nat) (inside : start + count ≤ cells.size)
    (words : start + count < Word.limit) :
    slice cells start count = .ok (cells.extract start (start + count)).toList := by
  rw [slice, Word.add_of_lt words]
  exact if_pos inside

end Cells

namespace Value

def listBytes (values : List Value) : List UInt8 := values.flatMap toBytes

@[simp] theorem listBytes_nil : listBytes [] = [] := rfl

@[simp] theorem listBytes_cons (v : Value) (rest : List Value) :
    listBytes (v :: rest) = v.toBytes ++ listBytes rest := rfl

@[simp] theorem listBytes_append (values rest : List Value) :
    listBytes (values ++ rest) = listBytes values ++ listBytes rest := by
  simp [listBytes]

@[simp] theorem listBytes_length (values : List Value) :
    (listBytes values).length = values.length * slotSize := by
  induction values with
  | nil => rfl
  | cons v rest ih =>
    rw [listBytes_cons, List.length_append, toBytes_length, ih, List.length_cons]
    ring

end Value

namespace Heap

theorem writing_append (h : Heap) (address : Nat) (xs ys : List UInt8) :
    (h.writing address xs).writing (address + xs.length) ys = h.writing address (xs ++ ys) := by
  simp only [writing, Cells.overlay_append]

theorem writing_below (h : Heap) (address : Nat) (xs ys : List UInt8) :
    (h.writing (address + xs.length) ys).writing address xs = h.writing address (xs ++ ys) := by
  simp only [writing, Cells.overlay_below]

def slotAt (h : Heap) (address : Nat) : Value :=
  Value.ofBytes (h.bytes.extract address (address + Value.slotSize)).toList

def slotsAt (h : Heap) (address : Nat) : Nat → List Value
  | 0 => []
  | n + 1 => h.slotAt address :: slotsAt h (address + Value.slotSize) n

@[simp] theorem slotsAt_length (h : Heap) (address n : Nat) : (h.slotsAt address n).length = n := by
  induction n generalizing address with
  | zero => rfl
  | succ n ih => rw [slotsAt, List.length_cons, ih]

theorem read_inside {h : Heap} {address length : Nat} (inside : address + length ≤ h.size)
    (words : h.size < Word.limit) :
    h.read address length = .ok (h.bytes.extract address (address + length)).toList := by
  have checked := checkRange_ok.mpr ⟨inside, by omega⟩
  have sliced := Cells.slice_inside h.bytes address length inside (by omega)
  rw [read, checked, sliced]
  rfl

theorem readSlot_inside {h : Heap} {address : Nat} (inside : address + Value.slotSize ≤ h.size)
    (words : h.size < Word.limit) : h.readSlot address = .ok (h.slotAt address) := by
  rw [readSlot, read_inside inside words]
  rfl

theorem writeSlot_inside {h : Heap} {address : Nat} (v : Value)
    (inside : address + Value.slotSize ≤ h.size) (words : h.size < Word.limit) :
    writeSlot address v h = .ok () (h.writing address v.toBytes) := by
  have checked : h.checkRange address v.toBytes.length = .ok () :=
    checkRange_ok.mpr ⟨inside, by rw [Value.toBytes_length]; omega⟩
  rw [writeSlot, write_eq, checked]

end Heap
end StackMachine
