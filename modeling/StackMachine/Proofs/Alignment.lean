import Mathlib
import StackMachine.Proofs.Effect
import StackMachine.Proofs.Index
import StackMachine.Proofs.Sequence

/-! Addresses as values. Every block of a machine starts and ends at the start of a slot: sizes are
whole numbers of slots, and first fit begins at address zero or right behind a block, so that no
history of requests and releases leads to an address in between. In a heap of at most `2 ^ 26` bytes
such an address is carried exactly by a value. A value that was handed out therefore names its own
block and no other, and it gives that block back. -/
namespace StackMachine

namespace Heap

variable {h next : Heap} {address size : Nat}

def Aligned (h : Heap) : Prop :=
  ∀ b ∈ h.live, Value.slotSize ∣ b.address ∧ Value.slotSize ∣ b.size

theorem empty_aligned (size : Nat) : (empty size).Aligned := nofun

/-- Where first fit begins, a block ends. -/
theorem Aligned.start (aligned : h.Aligned) (sound : h.Sound) {stop : Nat} (positive : 0 < size)
    (found : runEnd size 0 0 h.taken.toList = some stop) : Value.slotSize ∣ stop - size := by
  obtain ⟨fits, -, free, -⟩ := runEnd_least positive found
  rcases runEnd_starts positive found with whole | before
  · simp [whole]
  rw [Array.getElem?_toList] at before
  -- The block that takes the byte before the run ends there, for the run itself is free.
  obtain ⟨b, member, low, high⟩ := (sound.agrees _).mp before
  have apart := sound.apart_of_free positive free member
  by_cases first : stop - size = 0
  · simp [first]
  have behind : stop - size = b.address + b.size := by
    simp only [Block.stop] at high apart
    omega
  rw [behind]
  exact dvd_add (aligned b member).1 (aligned b member).2

theorem Aligned.allocation (aligned : h.Aligned) (sound : h.Sound) (slots : Value.slotSize ∣ size)
    (allocated : h.allocation size = .ok (address, next)) :
    Value.slotSize ∣ address ∧ next.Aligned ∧ (size = 0 → address = 0 ∧ next = h) ∧
      (0 < size → ⟨address, size⟩ ∉ h.live ∧ ∀ c, c ∈ next.live ↔ c = ⟨address, size⟩ ∨ c ∈ h.live) := by
  rw [Heap.allocation] at allocated
  by_cases empty : size = 0
  · rw [if_pos empty] at allocated
    cases allocated
    exact ⟨dvd_zero _, aligned, fun _ => ⟨rfl, rfl⟩, fun positive => absurd empty positive.ne'⟩
  rw [if_neg empty] at allocated
  cases found : runEnd size 0 0 h.taken.toList with
  | none => rw [found] at allocated; cases allocated
  | some stop =>
    rw [found] at allocated
    cases allocated
    have positive := Nat.pos_of_ne_zero empty
    obtain ⟨-, -, free, -⟩ := runEnd_least positive found
    have start := aligned.start sound positive found
    refine ⟨start, fun b member => ?_, fun nothing => absurd nothing empty, fun _ =>
      ⟨?_, fun c => sound.mem_taking positive free⟩⟩
    · rcases (sound.mem_taking positive free).mp member with rfl | member
      · exact ⟨start, slots⟩
      · exact aligned b member
    · exact fun old => sound.fresh_of_free positive free old rfl

theorem Aligned.release (aligned : h.Aligned) (released : h.release address size = .ok next) :
    next.Aligned := by
  rw [Heap.release] at released
  split_ifs at released
  · cases released
    exact aligned
  · cases released
    exact fun b kept => aligned b (Block.mem_erase.mp kept).1

end Heap

namespace Machine

variable {m next : Machine} {config : Config} {address slots : Nat}

/-- So many slots have been handed out at an address: its value is on top, and beside the blocks that were
live a new one of just that size lies there. For no slots at all the address is zero and no block is made. -/
structure HandsOut (m next : Machine) (address slots : Nat) : Prop where
  top : next.stack.top? = some (Value.ofNat address)
  aligned : Value.slotSize ∣ address
  inside : address ≤ m.heap.size
  nothing : slots = 0 → address = 0 ∧ next.heap = m.heap
  block : 0 < slots → ⟨address, slots * Value.slotSize⟩ ∉ m.heap.live ∧
    ∀ c, c ∈ next.heap.live ↔ c = ⟨address, slots * Value.slotSize⟩ ∨ c ∈ m.heap.live

theorem HandsOut.names (handed : m.HandsOut next address slots) (small : m.heap.size ≤ 2 ^ 26) :
    (Value.ofNat address).toIndex? = some address :=
  Value.toIndex?_ofNat_of_aligned handed.aligned (handed.inside.trans small)

theorem handsOut_of_allocation (form : m.WellFormed) (aligned : m.heap.Aligned) {heap after : Heap}
    (allocated : m.heap.allocation (slots * Value.slotSize) = .ok (address, heap)) (rest : List Value)
    (live : after.live = heap.live) (same : slots = 0 → after = heap) :
    m.HandsOut ((m.keeping (.ofNat address :: rest)).withHeap after) address slots ∧
      after.Aligned := by
  obtain ⟨inside, -, -⟩ := Heap.allocation_ok form.heap allocated
  obtain ⟨start, kept, nothing, block⟩ := aligned.allocation form.heap (dvd_mul_left ..) allocated
  refine ⟨⟨?_, start, by omega, fun unasked => ?_, fun wanted => ?_⟩, ?_⟩
  · rw [OperandStack.top?_eq_head?]
    exact congrArg List.head? keeping_values
  · obtain ⟨zero, unchanged⟩ := nothing (by rw [unasked, Nat.zero_mul])
    exact ⟨zero, (same unasked).trans unchanged⟩
  · have new := block (Nat.mul_pos wanted (by decide))
    rwa [← live] at new
  · rwa [Heap.Aligned, live]

theorem allocate_handsOut (form : m.WellFormed) (aligned : m.heap.Aligned)
    (taken : Step.allocate m = .ok (address, next)) :
    (∃ slots, m.stack.top?.bind Value.toIndex? = some slots ∧ m.HandsOut next address slots) ∧
      next.heap.Aligned := by
  obtain ⟨count, rest, slots, size, heap, live, counted, sized, allocated, rfl⟩ :=
    Step.allocate_ok taken
  obtain ⟨rfl, -⟩ := Value.slotBytes_ok sized
  obtain ⟨handed, kept⟩ := handsOut_of_allocation form aligned allocated rest rfl fun _ => rfl
  refine ⟨⟨slots, ?_, handed⟩, kept⟩
  rw [OperandStack.top?_eq_head?, live]
  exact Value.toIndex?_of_expectIndex counted

theorem formatText_handsOut (form : m.WellFormed) (aligned : m.heap.Aligned) {kind : Numeral.Kind}
    {operation : String} (taken : Step.formatText kind operation m = .ok (address, next)) :
    m.HandsOut next address Numeral.bufferSlots ∧ next.heap.Aligned := by
  obtain ⟨v, rest, heap, -, allocated, rfl⟩ := Step.formatText_ok taken
  exact handsOut_of_allocation form aligned allocated rest rfl fun unasked => absurd unasked (by decide)

theorem step_aligned (form : m.WellFormed) (aligned : m.heap.Aligned) {op : Op}
    (taken : op.step m = .ok next) : next.heap.Aligned := by
  by_cases writes : op.writesHeap = false
  · rw [(Op.step_touches form taken).2.heap writes]
    exact aligned
  cases op with
  | allocate =>
    obtain ⟨address, answered⟩ := Action.map_snd_ok taken
    exact (allocate_handsOut form aligned answered).2
  | free =>
    obtain ⟨_, _, _, _, _, _, heap, -, -, -, -, released, rfl⟩ := Step.free_ok taken
    exact aligned.release released
  | store slots =>
    obtain ⟨_, _, -, -, -, -, rfl⟩ := Step.store_ok taken
    exact aligned
  | integerToText | floatToText =>
    obtain ⟨address, answered⟩ := Action.map_snd_ok taken
    exact (formatText_handsOut form aligned answered).2
  | _ => exact absurd rfl writes

theorem Reachable.aligned (addressable : config.Addressable) (reachable : Reachable config m) :
    m.heap.Aligned :=
  reachable.heap_induction addressable (Heap.empty_aligned _)
    fun form aligned taken => step_aligned form aligned taken

theorem handsOut_of_allocate (form : m.WellFormed) (aligned : m.heap.Aligned)
    (handed : allocate m = .ok address next) :
    ∃ slots, m.stack.top?.bind Value.toIndex? = some slots ∧ m.HandsOut next address slots := by
  have run := allocate_run form.heap form.size form.fits form.capacity
  rw [form.stack, handed] at run
  exact (allocate_handsOut form aligned (Action.answer_ok run.symm)).1

theorem handsOut_of_formatter (form : m.WellFormed) (aligned : m.heap.Aligned)
    {action : Action Machine Nat} (formats : action ∈ [integerToText, floatToText])
    (handed : action m = .ok address next) : m.HandsOut next address Numeral.bufferSlots := by
  have numeral (kind : Numeral.Kind) (operation : String)
      (handed : formatText kind operation m = .ok address next) :
      m.HandsOut next address Numeral.bufferSlots := by
    have run := formatText_run kind operation form.heap form.size form.fits form.capacity
    rw [form.stack, handed] at run
    exact (formatText_handsOut form aligned (Action.answer_ok run.symm)).1
  simp only [List.mem_cons, List.not_mem_nil, or_false] at formats
  rcases formats with rfl | rfl
  · exact numeral .integer "integer_to_text" handed
  · exact numeral .real "float_to_text" handed

theorem block_names (form : m.WellFormed) (aligned : m.heap.Aligned) (small : m.heap.size ≤ 2 ^ 26)
    {b : Block} (member : b ∈ m.heap.live) :
    (Value.ofNat b.address).toIndex? = some b.address := by
  have inside := form.heap.inside b member
  simp only [Block.stop] at inside
  exact Value.toIndex?_ofNat_of_aligned (aligned b member).1 (by omega)

theorem eq_of_value_eq (form : m.WellFormed) (aligned : m.heap.Aligned)
    (small : m.heap.size ≤ 2 ^ 26) {b c : Block} (member : b ∈ m.heap.live)
    (other : c ∈ m.heap.live) (same : Value.ofNat b.address = Value.ofNat c.address) : b = c := by
  have addresses : some b.address = some c.address := by
    rw [← block_names form aligned small member, same, block_names form aligned small other]
  exact form.heap.ordered.eq_of_address form.heap.filled member other (Option.some.inj addresses)

theorem free_apply (form : m.WellFormed) (aligned : m.heap.Aligned) (small : m.heap.size ≤ 2 ^ 26)
    {b : Block} (member : b ∈ m.heap.live) {count : Value} {rest : List Value}
    (counts : count.toIndex? = some (b.size / Value.slotSize))
    (live : m.stack.values = Value.ofNat b.address :: count :: rest) :
    Op.free.apply m =
      .ok .next ((m.keeping rest).withHeap (m.heap.releasing b.address b.size)) := by
  have inside := form.heap.inside b member
  have positive := form.heap.filled b member
  have whole : b.size / Value.slotSize * Value.slotSize = b.size :=
    Nat.div_mul_cancel (aligned b member).2
  have named := Value.expectIndex_of_toIndex? (block_names form aligned small member) "free"
  have counted := Value.expectIndex_of_toIndex? counts "free"
  have sized : Value.slotBytes (b.size / Value.slotSize) "free" = .ok b.size := by
    rw [Value.slotBytes_of_lt, whole]
    simp only [Block.stop] at inside
    rw [whole, Word.limit]
    omega
  have released : m.heap.release b.address b.size = .ok (m.heap.releasing b.address b.size) := by
    rw [Heap.release, if_neg positive.ne', if_pos member]
  refine Op.apply_of_step form ?_ (by simp)
  rw [Op.step, Step.free, live]
  simp only [named, counted, bind, Except.bind, sized, released]
  rfl

theorem slots_count (form : m.WellFormed) (small : m.heap.size ≤ 2 ^ 26) {b : Block}
    (member : b ∈ m.heap.live) :
    (Value.ofNat (b.size / Value.slotSize)).toIndex? = some (b.size / Value.slotSize) := by
  have inside := form.heap.inside b member
  simp only [Block.stop] at inside
  refine Value.toIndex?_ofNat_of_le ?_
  simp only [Value.slotSize]
  omega

theorem runs_free (form : m.WellFormed) (aligned : m.heap.Aligned) (small : m.heap.size ≤ 2 ^ 26)
    (room : m.stack.pointer + 2 ≤ m.stack.capacity) {b : Block} (member : b ∈ m.heap.live) :
    Runs m [.push (.ofNat (b.size / Value.slotSize)), .push (.ofNat b.address), .free]
      (m.withHeap (m.heap.releasing b.address b.size)) := by
  have pointer := form.pointer
  have pushed := runs_push form [.ofNat (b.size / Value.slotSize), .ofNat b.address]
    (by rw [← pointer]; exact room)
  have fits : (Value.ofNat b.address :: .ofNat (b.size / Value.slotSize) :: m.stack.values).length ≤
      m.stack.capacity := by
    rw [List.length_cons, List.length_cons, ← pointer]
    exact room
  have freed := free_apply (form.of_keeping fits) aligned small member
    (slots_count form small member) keeping_values
  rw [keeping_keeping fits, form.stack] at freed
  exact pushed.append (.cons freed (.nil _))

theorem mem_releasing (form : m.WellFormed) {b : Block} (member : b ∈ m.heap.live) (c : Block) :
    c ∈ (m.heap.releasing b.address b.size).live ↔ c ∈ m.heap.live ∧ c ≠ b := by
  rw [Heap.releasing, Block.mem_erase]
  refine and_congr_right fun other => not_congr ⟨fun same => ?_, congrArg Block.address⟩
  exact form.heap.ordered.eq_of_address form.heap.filled other member same

/-- In a heap of at most `2 ^ 26` bytes values carry addresses exactly. The blocks are made of whole slots.
What `allocate` and the two formatters leave on top counts as the address that they answer, and a new
block lies there: for `allocate` of as many slots as the value on top said, which makes none for zero
slots only, and for the formatters of 32 slots in every case. The values of two blocks differ. On a stack
that ends in a block's number of slots and the value of its address, `free` succeeds, takes the two, and
gives back this block and no other; and where there is room for the two they can be pushed for it. -/
theorem addresses_survive_in_values (addressable : config.Addressable)
    (small : config.heapSize ≤ 2 ^ 26) (reachable : Reachable config m) :
    (∀ b ∈ m.heap.live, Value.slotSize ∣ b.address ∧ Value.slotSize ∣ b.size) ∧
      (∀ address next, allocate m = .ok address next →
        (∀ operation, (Value.ofNat address).expectIndex operation = .ok address) ∧
          ∃ slots, m.stack.top?.bind Value.toIndex? = some slots ∧ m.HandsOut next address slots) ∧
      (∀ action ∈ [integerToText, floatToText], ∀ address next, action m = .ok address next →
        (∀ operation, (Value.ofNat address).expectIndex operation = .ok address) ∧
          m.HandsOut next address 32) ∧
      (∀ b ∈ m.heap.live, ∀ c ∈ m.heap.live,
        Value.ofNat b.address = Value.ofNat c.address → b = c) ∧
      (∀ b ∈ m.heap.live, ∀ below count, count.toIndex? = some (b.size / Value.slotSize) →
        m.stack.live = below ++ [count, .ofNat b.address] →
          ∃ stack heap, Op.free.apply m = .ok .next { m with stack, heap } ∧ stack.live = below ∧
            ∀ c, c ∈ heap.live ↔ c ∈ m.heap.live ∧ c ≠ b) ∧
      (m.stack.pointer + 2 ≤ m.stack.capacity → ∀ b ∈ m.heap.live,
        ∃ heap, Runs m [.push (.ofNat (b.size / Value.slotSize)), .push (.ofNat b.address), .free]
          { m with heap } ∧
            ∀ c, c ∈ heap.live ↔ c ∈ m.heap.live ∧ c ≠ b) := by
  have form := reachable.wellFormed addressable
  have aligned := reachable.aligned addressable
  have narrow : m.heap.size ≤ 2 ^ 26 := (reachable.sizes addressable).2.1.trans_le small
  refine ⟨aligned, fun address next handed => ?_, fun action formats address next handed => ?_,
    fun b member c other => eq_of_value_eq form aligned narrow member other,
    fun b member below count counts live => ?_, fun room b member =>
    ⟨_, runs_free form aligned narrow room member, mem_releasing form member⟩⟩
  · obtain ⟨slots, counted, out⟩ := handsOut_of_allocate form aligned handed
    exact ⟨Value.expectIndex_of_toIndex? (out.names narrow), slots, counted, out⟩
  · have out := handsOut_of_formatter form aligned formats handed
    exact ⟨Value.expectIndex_of_toIndex? (out.names narrow), out⟩
  · have freed := free_apply form aligned narrow member counts (OperandStack.values_of_live live)
    refine ⟨_, _, freed, ?_, mem_releasing form member⟩
    exact OperandStack.holding_live.trans (List.reverse_reverse below)

/-- A count that stays under the value of its block gives the block back, and not the one before it; on the
same machine a formatter hands out a buffer. -/
theorem second_block_survives_in_values :
    let m := [Op.push (.ofNat 3), .allocate, .push (.ofNat 2), .push (.ofNat 2)].foldl
      (fun m op => Action.after op.apply m) (fresh ⟨4, 160, 1⟩)
    let next := Action.after Op.allocate.apply m
    (∃ after, allocate m = .ok 12 after ∧ m.HandsOut after 12 2) ∧
      (∃ after, integerToText m = .ok 12 after ∧ m.HandsOut after 12 32) ∧
      next.stack.live = [.ofNat 0, .ofNat 2, .ofNat 12] ∧ next.heap.live = [⟨0, 12⟩, ⟨12, 8⟩] ∧
      ∃ stack heap, Op.free.apply next = .ok .next { next with stack, heap } ∧
        stack.live = [.ofNat 0] ∧ ∀ c, c ∈ heap.live ↔ c ∈ next.heap.live ∧ c ≠ ⟨12, 8⟩ := by
  intro m next
  have addressable : Config.Addressable ⟨4, 160, 1⟩ := ⟨by decide, by decide⟩
  have reachable : Reachable ⟨4, 160, 1⟩ m := Reachable.fresh.operations _
  obtain ⟨-, allocated, formatted, -⟩ := addresses_survive_in_values addressable (by decide) reachable
  have later : Reachable ⟨4, 160, 1⟩ next := reachable.apply .allocate
  obtain ⟨-, -, -, -, releases, -⟩ := addresses_survive_in_values addressable (by decide) later
  have live : next.stack.live = [.ofNat 0, .ofNat 2, .ofNat 12] := by decide +kernel
  have blocks : next.heap.live = [⟨0, 12⟩, ⟨12, 8⟩] := by decide +kernel
  have two : m.stack.top?.bind Value.toIndex? = some 2 := by decide +kernel
  have answered := Action.ok_of_answered (show EStateM.run' allocate m = some 12 by decide +kernel)
  have written := Action.ok_of_answered (show EStateM.run' integerToText m = some 12 by decide +kernel)
  obtain ⟨-, slots, counted, handed⟩ := allocated 12 _ answered
  obtain rfl : 2 = slots := Option.some.inj (two.symm.trans counted)
  exact ⟨⟨_, answered, handed⟩, ⟨_, written, (formatted integerToText (by simp) 12 _ written).2⟩, live,
    blocks, releases ⟨12, 8⟩ (by decide +kernel) [.ofNat 0] (.ofNat 2) (by decide +kernel) live⟩

end Machine
end StackMachine
