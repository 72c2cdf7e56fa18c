import Mathlib
import StackMachine.Proofs.Alignment
import StackMachine.Proofs.Grammar
import StackMachine.Proofs.Ledger

/-! Texts in their buffers. A text is put in a new buffer, cut behind 31 characters, and the zeros behind it end
it there. So where there is memory for a buffer, a value that is written and read again is replaced by what the
first 31 characters of its text denote. -/
namespace StackMachine

theorem Value.signChars_length_le (negative : Bool) : (signChars negative).length ≤ 1 := by
  cases negative <;> decide

namespace Numeral

variable {kind : Kind} {word text : List Char}

theorem digit_filled {c : Char} (digit : c.isDigit) : c.toNat ≠ 0 := by
  have low : 48 ≤ c.toNat := (isDigit_iff.mp digit).1
  omega

theorem IsWord.filled (spelled : IsWord kind word) : ∀ c ∈ word, c.toNat ≠ 0 := by
  have sign (negative : Bool) : ∀ c ∈ Value.signChars negative, c.toNat ≠ 0 := by
    cases negative <;> simp [Value.signChars]
  intro c member
  cases spelled with
  | whole negative all =>
    obtain front | digit := List.mem_append.mp member
    · exact sign negative c front
    · exact digit_filled (all c digit)
  | pointed negative all =>
    obtain front | back := List.mem_append.mp member
    · exact sign negative c front
    · obtain digit | point := List.mem_append.mp back
      · exact digit_filled (all c (List.mem_append_left _ digit))
      · obtain rfl | digit := List.mem_cons.mp point
        · decide
        · exact digit_filled (all c (List.mem_append_right _ digit))

theorem body_spelled {rest : List Value} (filled : ∀ c ∈ text, c.toNat ≠ 0) (ended : ∀ v ∈ rest.head?, v.isZero) :
    body (text.map charCode ++ rest) = text.map charCode := by
  have codes : ∀ v ∈ text.map charCode, (!v.isZero) = true := by
    intro v member
    obtain ⟨c, taken, rfl⟩ := List.mem_map.mp member
    rw [isZero_charCode (filled c taken), Bool.not_false]
  have behind : rest.takeWhile (!·.isZero) = [] := by
    cases rest with
    | nil => rfl
    | cons v rest => exact List.takeWhile_cons_of_neg (by simp [ended v rfl])
  rw [body, List.takeWhile_append_of_pos codes, behind, List.append_nil]

theorem buffer_eq (text : List Char) : buffer text =
    (text.take 31).map charCode ++ List.replicate (32 - (text.take 31).length) Value.zero := by
  rw [buffer, List.length_map]
  rfl

/-- In its buffer a text is cut behind 31 characters, and ends there. -/
theorem body_buffer (filled : ∀ c ∈ text, c.toNat ≠ 0) : body (buffer text) = (text.take 31).map charCode := by
  rw [buffer_eq]
  refine body_spelled (fun c taken => filled c (List.mem_of_mem_take taken)) fun v first => ?_
  rw [List.eq_of_mem_replicate (List.mem_of_mem_head? first)]
  decide

end Numeral

theorem Heap.slotsAt_buffer {h : Heap} {address : Nat} (inside : address + 128 ≤ h.size) (text : List Char) :
    (h.writing address (Value.listBytes (Numeral.buffer text))).slotsAt address 32 = Numeral.buffer text := by
  have fits : address + (Numeral.buffer text).length * Value.slotSize ≤ h.size := by
    rw [Numeral.buffer_length, Numeral.bufferSlots, Value.slotSize]
    omega
  have slots := slotsAt_writing fits
  rwa [Numeral.buffer_length, Numeral.bufferSlots] at slots

theorem Step.formatText_cases {m : Machine} {v : Value} {rest : List Value} (sound : m.heap.Sound)
    (live : m.stack.values = v :: rest) (kind : Numeral.Kind) :
    (∃ address, IsLeast {a | Heap.FreeAt m.heap.taken.toList a 128} address ∧ address + 128 ≤ m.heap.size ∧
      ∀ operation, formatText kind operation m = .ok (address, (m.keeping (.ofNat address :: rest)).withHeap
        ((m.heap.taking address 128).writing address
          (Value.listBytes (Numeral.buffer (Numeral.render kind v)))))) ∨
    (∀ address, ¬Heap.FreeAt m.heap.taken.toList address 128) ∧
      ∀ operation, formatText kind operation m = .error (.noFreeMemory 128 m.heap.largestFreeRun) := by
  have positive : 0 < Numeral.bufferSlots * Value.slotSize := by decide
  obtain ⟨address, least, inside, served⟩ | ⟨nowhere, refused⟩ := Heap.allocation_first_fit sound positive
  · refine .inl ⟨address, least, inside, fun operation => ?_⟩
    rw [formatText, live]
    simp only [served, bind, Except.bind]
    rfl
  · refine .inr ⟨nowhere, fun operation => ?_⟩
    rw [formatText, live]
    simp only [refused, bind, Except.bind]
    rfl

namespace Machine

variable {m : Machine} {v w : Value} {below rest : List Value}

def formatOp : Numeral.Kind → Op
  | .integer => .integerToText
  | .real => .floatToText

def parseOp : Numeral.Kind → Op
  | .integer => .textToInteger
  | .real => .textToFloat

theorem format_apply (form : m.WellFormed) (aligned : m.heap.Aligned) (small : m.heap.size ≤ 2 ^ 26)
    (free : 128 ≤ m.heap.largestFreeRun) (live : m.stack.values = v :: rest) (kind : Numeral.Kind) :
    ∃ address heap, (formatOp kind).apply m = .ok .next ((m.keeping (.ofNat address :: rest)).withHeap heap) ∧
      heap.size = m.heap.size ∧ (Value.ofNat address).toIndex? = some address ∧ address + 128 ≤ m.heap.size ∧
      heap.slotsAt address 32 = Numeral.buffer (Numeral.render kind v) := by
  obtain ⟨address, -, inside, stepped⟩ | ⟨nowhere, -⟩ := Step.formatText_cases form.heap live kind
  case inr =>
    obtain ⟨address, run⟩ := (Heap.le_longestRun (by decide)).mp free
    exact absurd run (nowhere address)
  have handed := (formatText_handsOut form aligned (stepped "")).1
  have room : address + 128 ≤ (m.heap.taking address 128).size := by rwa [Heap.taking_size]
  refine ⟨address, _, ?_, ?_, handed.names small, inside, Heap.slotsAt_buffer room _⟩
  case refine_2 => rw [Heap.writing_size, Heap.taking_size]
  cases kind with
  | integer => exact Op.apply_of_step form (by rw [formatOp, Op.step, stepped, Except.map]) (by simp [formatOp])
  | real => exact Op.apply_of_step form (by rw [formatOp, Op.step, stepped, Except.map]) (by simp [formatOp])

theorem runs_format_parse (form : m.WellFormed) (aligned : m.heap.Aligned) (small : m.heap.size ≤ 2 ^ 26)
    (free : 128 ≤ m.heap.largestFreeRun) (room : m.stack.pointer < m.stack.capacity)
    (stack : m.stack.live = below ++ [v]) (kind : Numeral.Kind)
    (read : Numeral.read kind (Numeral.buffer (Numeral.render kind v)) = .ok w) :
    ∃ next, Runs m [formatOp kind, .push (.ofNat 32), parseOp kind] next ∧ next.stack.live = below ++ [w] := by
  have live : m.stack.values = v :: below.reverse := OperandStack.values_of_live stack
  rw [form.pointer, live] at room
  obtain ⟨address, heap, formatted, size, named, inside, slots⟩ :=
    format_apply form aligned small free live kind
  have atTop : (Value.ofNat address :: below.reverse).length ≤ m.stack.capacity := room.le
  have above : (Value.ofNat 32 :: Value.ofNat address :: below.reverse).length ≤ m.stack.capacity := room
  have form' := form.of_apply formatted
  have pushed := push_apply form' (by
    rw [withHeap_stack, keeping_values, keeping_capacity atTop]
    exact room) (.ofNat 32)
  rw [keeping_withHeap_keeping atTop, withHeap_stack, keeping_values] at pushed
  have form'' := form'.of_apply pushed
  have presents : ((m.keeping (.ofNat 32 :: .ofNat address :: below.reverse)).withHeap heap).Presents
      (Numeral.buffer (Numeral.render kind v)) := by
    refine ⟨below, .ofNat address, .ofNat 32, address, ?_, named, ?_, ?_, ?_⟩
    · rw [withHeap_stack, keeping, OperandStack.holding_live]
      simp
    · rw [Numeral.buffer_length]
      exact Value.toIndex?_ofNat_of_le (by decide)
    · rw [Numeral.buffer_length, withHeap_heap, size]
      exact inside
    · rw [Numeral.buffer_length]
      exact slots
  have stepped := parseText_presented form'' presents kind
  simp only [read, withHeap_stack, keeping_values, keeping_withHeap_keeping above, Except.map] at stepped
  have parsed : (parseOp kind).apply ((m.keeping (.ofNat 32 :: .ofNat address :: below.reverse)).withHeap heap) =
      .ok .next ((m.keeping (w :: below.reverse)).withHeap heap) := by
    cases kind with
    | integer => exact Op.apply_of_step form'' (by rw [parseOp, Op.step, stepped]; rfl) (by simp [parseOp])
    | real => exact Op.apply_of_step form'' (by rw [parseOp, Op.step, stepped]; rfl) (by simp [parseOp])
  refine ⟨_, .cons formatted (.cons pushed (.cons parsed (.nil _))), ?_⟩
  rw [withHeap_stack, keeping, OperandStack.holding_live]
  simp

end Machine
end StackMachine
