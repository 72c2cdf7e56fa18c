import Mathlib
import StackMachine.Proofs.FixedText
import StackMachine.Proofs.IntegerText
import StackMachine.Proofs.Isolation

/-! What writing a text does to a machine. The buffer is a new block, and a new block is handed out with the bytes that
were in it. They make no difference: all 32 slots are written, first the characters of the text, as far as there is
room for them and one zero, then zeros. No character of a text is zero, so the text is what stands before the first
one. -/
namespace StackMachine

theorem Numeral.render_filled (kind : Kind) (v : Value) : ∀ c ∈ render kind v, c.toNat ≠ 0 := by
  cases kind with
  | integer =>
    have word : IsWord .integer v.integerText := .whole _ fun _ => Decimal.isDigit_of_mem_digitChars
    exact word.filled
  | real =>
    rw [render, Value.fixedText]
    split
    case h_1 => simp
    case h_2 negative number => cases negative <;> simp [Value.signChars]
    case h_3 negative num den number =>
      obtain ⟨part, text, -, all, -⟩ := Value.fixedChars_parts num den
      rw [text]
      exact (IsWord.pointed negative (isDigit_fixed _ all)).filled

theorem Numeral.buffer_getLast? (text : List Char) : (buffer text).getLast? = some .zero := by
  have short : (text.take 31).length ≤ 31 := List.length_take_le ..
  rw [buffer_eq, List.getLast?_append, List.getLast?_replicate, if_neg (by omega), Option.some_or]

theorem OperandStack.holding_top (capacity : Nat) (v w : Value) (values : List Value) :
    holding capacity (w :: values) =
      ⟨(holding capacity (v :: values)).slots.setIfInBounds values.length w, values.length + 1⟩ := by
  rw [holding_cons_slots, List.setIfInBounds_toArray, List.set_append_right _ _ (by simp)]
  simp [holding]

namespace Machine

variable {config : Config} {m next : Machine} {v : Value} {below rest : List Value} {address : Nat}

def writer : Numeral.Kind → Action Machine Nat
  | .integer => integerToText
  | .real => floatToText

/-- A text has been put in a new buffer, in place of the top value. -/
structure Buffers (m : Machine) (text : List Char) (address : Nat) (next : Machine) : Prop where
  first : IsLeast {a | Heap.FreeAt m.heap.taken.toList a 128} address
  block : next.heap.live.Perm (⟨address, 128⟩ :: m.heap.live)
  taken : ∀ i, next.heap.taken[i]? = if address ≤ i ∧ i < address + 128 then some true else m.heap.taken[i]?
  slots : next.heap.slotsAt address 32 =
    (text.take 31).map Numeral.charCode ++ List.replicate (32 - (text.take 31).length) Value.zero
  ended : (next.heap.slotsAt address 32).getLast? = some .zero
  body : Numeral.body (next.heap.slotsAt address 32) = (text.take 31).map Numeral.charCode
  bytes : ∀ i, ¬(address ≤ i ∧ i < address + 128) → next.heap.bytes[i]? = m.heap.bytes[i]?
  top : next.stack.top? = some (.ofNat address)
  stack : next.stack = ⟨m.stack.slots.setIfInBounds (m.stack.pointer - 1) (.ofNat address), m.stack.pointer⟩
  rest : next = { m with stack := next.stack, heap := next.heap }

theorem writer_cases (form : m.WellFormed) (live : m.stack.values = v :: rest) (kind : Numeral.Kind) :
    (∃ address, IsLeast {a | Heap.FreeAt m.heap.taken.toList a 128} address ∧ address + 128 ≤ m.heap.size ∧
      writer kind m = .ok address ((m.keeping (.ofNat address :: rest)).withHeap
        ((m.heap.taking address 128).writing address
          (Value.listBytes (Numeral.buffer (Numeral.render kind v)))))) ∨
    (∀ address, ¬Heap.FreeAt m.heap.taken.toList address 128) ∧
      writer kind m = .error (.noFreeMemory 128 m.heap.largestFreeRun) m := by
  have run (operation : String) := formatText_run kind operation form.heap form.size form.fits form.capacity
  simp only [form.stack] at run
  have taken : ∃ operation, writer kind m = Action.answer m (Step.formatText kind operation m) := by
    cases kind with
    | integer => exact ⟨_, run _⟩
    | real => exact ⟨_, run _⟩
  obtain ⟨operation, taken⟩ := taken
  rw [taken]
  obtain ⟨address, first, inside, served⟩ | ⟨nowhere, refused⟩ := Step.formatText_cases form.heap live kind
  · exact .inl ⟨address, first, inside, by rw [served]; rfl⟩
  · exact .inr ⟨nowhere, by rw [refused]; rfl⟩

theorem buffers_of_first (form : m.WellFormed) (live : m.stack.values = v :: rest) {text : List Char}
    (filled : ∀ c ∈ text, c.toNat ≠ 0) (first : IsLeast {a | Heap.FreeAt m.heap.taken.toList a 128} address)
    (inside : address + 128 ≤ m.heap.size) :
    m.Buffers text address ((m.keeping (.ofNat address :: rest)).withHeap
      ((m.heap.taking address 128).writing address (Value.listBytes (Numeral.buffer text)))) := by
  have room : address + 128 ≤ (m.heap.taking address 128).size := by rwa [Heap.taking_size]
  have slots := Heap.slotsAt_buffer room text
  have free : Heap.FreeAt m.heap.taken.toList address 128 := first.1
  refine ⟨first, ?_, ?_, ?_, ?_, ?_, ?_, ?_, ?_, rfl⟩
  · have fresh (b : Block) (member : b ∈ m.heap.live) : b.address ≠ address :=
      form.heap.fresh_of_free (by decide) free member
    rw [withHeap_heap, Heap.writing_live]
    exact Block.insert_perm fresh
  · rw [withHeap_heap, Heap.writing_taken]
    exact form.heap.taking_taken inside
  · rw [withHeap_heap, slots, Numeral.buffer_eq]
  · rw [withHeap_heap, slots, Numeral.buffer_getLast?]
  · rw [withHeap_heap, slots, Numeral.body_buffer filled]
  · intro i beside
    rw [withHeap_heap, Heap.writing_beside, Heap.taking_bytes]
    rw [Value.listBytes_length, Numeral.buffer_length, Numeral.bufferSlots, Value.slotSize]
    omega
  · rw [withHeap_stack, OperandStack.top?_eq_head?, keeping_values, List.head?_cons]
  · calc OperandStack.holding m.stack.capacity (.ofNat address :: rest)
      _ = ⟨(OperandStack.holding m.stack.capacity (v :: rest)).slots.setIfInBounds rest.length (.ofNat address),
          (v :: rest).length⟩ := OperandStack.holding_top ..
      _ = ⟨m.stack.slots.setIfInBounds (m.stack.pointer - 1) (.ofNat address), m.stack.pointer⟩ := by
        rw [← live, form.holding, form.pointer, live, List.length_cons, Nat.add_sub_cancel]

/-- A text is put in a buffer whatever was there. In any machine, whatever value is on top, its text of either kind
can be written exactly if 128 bytes are free in a row somewhere. Then one block is new, at the first such place; its
slots are the first 31 characters of the text and zeros, and its address is on top. All bytes outside and all other
slots of the stack are as they were; without room nothing has changed. An integer is never cut. -/
theorem text_buffer (addressable : config.Addressable) (reachable : Reachable config m)
    (live : m.stack.live = below ++ [v]) (kind : Numeral.Kind) :
    ((∃ address next, writer kind m = .ok address next) ↔ ∃ a, Heap.FreeAt m.heap.taken.toList a 128) ∧
      (∀ address next, writer kind m = .ok address next → m.Buffers (Numeral.render kind v) address next) ∧
      (∀ fault next, writer kind m = .error fault next →
        next = m ∧ fault = .noFreeMemory 128 m.heap.largestFreeRun) ∧
      (Numeral.render .integer v).length ≤ 31 := by
  have form := reachable.wellFormed addressable
  have values : m.stack.values = v :: below.reverse := OperandStack.values_of_live live
  have short : (Numeral.render .integer v).length ≤ 31 := v.integerText_length_le.trans (by decide)
  obtain ⟨address, first, inside, run⟩ | ⟨nowhere, run⟩ := writer_cases form values kind
  · rw [run]
    refine ⟨iff_of_true ⟨_, _, rfl⟩ ⟨address, first.1⟩, ?_, by rintro _ _ ⟨⟩, short⟩
    rintro _ _ ⟨⟩
    exact buffers_of_first form values (Numeral.render_filled kind v) first inside
  · rw [run]
    refine ⟨iff_of_false (by rintro ⟨_, _, ⟨⟩⟩) (not_exists.mpr nowhere), by rintro _ _ ⟨⟩, ?_, short⟩
    rintro _ _ ⟨⟩
    exact ⟨rfl, rfl⟩

/-- A long text in the only place for a buffer, behind a block, where a value was stored to free memory before: its
slot was the last one of the buffer. -/
theorem long_text_over_dirty_memory :
    let v : Value := ⟨0xff7fffff⟩
    let m := [Op.push (.ofNat 1), .allocate, .push (.ofNat 7), .push (.ofNat 128), .store 1, .push v].foldl
      (fun m op => Action.after op.apply m) (fresh ⟨3, 132, 0⟩)
    m.stack.live = [.ofNat 0, v] ∧ m.heap.live = [⟨0, 4⟩] ∧ m.heap.slotAt 128 = .ofNat 7 ∧
      31 < (Numeral.render .real v).length ∧
      ∃ address next, floatToText m = .ok address next ∧ m.Buffers (Numeral.render .real v) address next := by
  intro v m
  have addressable : Config.Addressable ⟨3, 132, 0⟩ := ⟨by decide, by decide⟩
  have reachable : Reachable ⟨3, 132, 0⟩ m := Reachable.fresh.operations _
  have live : m.stack.live = [.ofNat 0] ++ [v] := by decide +kernel
  obtain ⟨success, buffers, -, -⟩ := text_buffer addressable reachable live .real
  have room : 128 ≤ m.heap.largestFreeRun := by decide +kernel
  obtain ⟨address, next, run⟩ := success.mpr ((Heap.le_longestRun (by decide)).mp room)
  exact ⟨live, by decide +kernel, by decide +kernel, by decide +kernel, address, next, run, buffers _ _ run⟩

end Machine
end StackMachine
