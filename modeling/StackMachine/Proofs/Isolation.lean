import Mathlib
import StackMachine.Proofs.Effect
import StackMachine.Proofs.Index
import StackMachine.Proofs.Sequence

/-! Live blocks are isolated. Blocks lie apart, the allocator hands out free bytes only, and a block is
cleared only when it is given up; so an operation reaches the bytes of a live block by a `store` to
them or by the `free` of that block, and by nothing else. `Heap.Isolates` says it of two heaps, and each
call of the heap is shown to spare what it does not name. -/
namespace StackMachine

theorem Cells.overlay_beside {α : Type} {cells : Array α} {start i : Nat} {xs : List α}
    (beside : ¬(start ≤ i ∧ i < start + xs.length)) : (overlay cells start xs)[i]? = cells[i]? := by
  rw [overlay_getElem?, if_neg]
  omega

namespace Heap

variable {h next : Heap} {address size i : Nat} {gone : Block → Prop} {written : Nat → Prop}

theorem writing_beside {data : List UInt8} (beside : ¬(address ≤ i ∧ i < address + data.length)) :
    (h.writing address data).bytes[i]? = h.bytes[i]? :=
  Cells.overlay_beside beside

/-- Blocks that are not given up stay live and keep the bytes that are not written, and new blocks lie
apart from all that were live. -/
structure Isolates (gone : Block → Prop) (written : Nat → Prop) (h next : Heap) : Prop where
  live : ∀ b ∈ h.live, ¬gone b → b ∈ next.live
  bytes : ∀ b ∈ h.live, ¬gone b → ∀ i, b.Covers i → ¬written i → next.bytes[i]? = h.bytes[i]?
  apart : ∀ c ∈ next.live, c ∉ h.live → ∀ b ∈ h.live, c.stop ≤ b.address ∨ b.stop ≤ c.address

theorem Isolates.refl : Isolates gone written h h :=
  ⟨fun _ member _ => member, fun _ _ _ _ _ _ => rfl, fun _ member new => absurd member new⟩

theorem Isolates.writing {data : List UInt8}
    (named : ∀ i, address ≤ i → i < address + data.length → written i) :
    Isolates gone written h (h.writing address data) where
  live _ member _ := member
  bytes _ _ _ i _ untouched := writing_beside fun inside => untouched (named i inside.1 inside.2)
  apart _ member new := absurd member new

theorem allocation_cases (sound : h.Sound) (allocated : h.allocation size = .ok (address, next)) :
    size = 0 ∧ next = h ∨ 0 < size ∧ next.bytes = h.bytes ∧
      (∀ c, c ∈ next.live ↔ c = ⟨address, size⟩ ∨ c ∈ h.live) ∧
      ∀ b ∈ h.live, b.stop ≤ address ∨ address + size ≤ b.address := by
  rw [allocation] at allocated
  by_cases positive : size = 0
  · rw [if_pos positive] at allocated
    cases allocated
    exact .inl ⟨positive, rfl⟩
  rw [if_neg positive] at allocated
  cases found : runEnd size 0 0 h.taken.toList with
  | none => rw [found] at allocated; cases allocated
  | some stop =>
    rw [found] at allocated
    cases allocated
    have positive := Nat.pos_of_ne_zero positive
    obtain ⟨-, -, free, -⟩ := runEnd_least positive found
    exact .inr ⟨positive, rfl, fun c => sound.mem_taking positive free,
      fun b member => sound.apart_of_free positive free member⟩

theorem Isolates.allocation (sound : h.Sound) (allocated : h.allocation size = .ok (address, next))
    (data : List UInt8) (fits : data.length ≤ size) :
    Isolates gone written h (next.writing address data) := by
  obtain ⟨rfl, rfl⟩ | ⟨-, same, entered, apart⟩ := allocation_cases sound allocated
  · obtain rfl := List.length_eq_zero_iff.mp (Nat.le_zero.mp fits)
    exact .refl
  · refine ⟨fun b member _ => (entered b).mpr (.inr member), fun b member _ i covers _ => ?_,
      fun c member new b old => ?_⟩
    · rw [← same]
      refine Cells.overlay_beside fun inside => ?_
      have beside := apart b member
      obtain ⟨low, high⟩ := covers
      omega
    · rcases (entered c).mp member with rfl | live
      · exact (apart b old).symm
      · exact absurd live new

theorem Isolates.release (sound : h.Sound) (released : h.release address size = .ok next)
    (named : gone ⟨address, size⟩) : Isolates gone written h next := by
  rw [Heap.release] at released
  split_ifs at released with empty member
  · cases released
    exact .refl
  · cases released
    have other {b : Block} (live : b ∈ h.live) (stays : ¬gone b) : b ≠ ⟨address, size⟩ :=
      fun same => stays (same ▸ named)
    refine ⟨fun b live stays => ?_, fun b live stays i covers _ => ?_, fun c kept new => ?_⟩
    · refine Block.mem_erase.mpr ⟨live, fun same => other live stays ?_⟩
      exact sound.ordered.eq_of_address sound.filled live member same
    · rw [sound.releasing_bytes member, if_neg]
      exact fun inside => other live stays (sound.ordered.eq_of_covers live member covers inside)
    · exact absurd (Block.mem_erase.mp kept).1 new

end Heap

namespace Op

variable {op : Op} {m next : Machine}

/-- The operation gives up a block: `free` finds its address on top and its slots below. -/
def Frees (op : Op) (m : Machine) (b : Block) : Prop :=
  op = .free ∧ ∃ top count rest slots, m.stack.values = top :: count :: rest ∧
    top.toIndex? = some b.address ∧ count.toIndex? = some slots ∧ b.size = slots * Value.slotSize

/-- The operation stores to the byte at a position: `store` finds the address on top. -/
def StoresTo (op : Op) (m : Machine) (i : Nat) : Prop :=
  ∃ slots address, op = .store slots ∧ m.stack.top?.bind Value.toIndex? = some address ∧
    address ≤ i ∧ i < address + slots.toNat * Value.slotSize

theorem formatText_isolates (form : m.WellFormed) {kind : Numeral.Kind} {operation : String}
    {address : Nat} (formatted : Step.formatText kind operation m = .ok (address, next)) :
    m.heap.Isolates (op.Frees m) (op.StoresTo m) next.heap := by
  obtain ⟨v, rest, heap, -, allocated, rfl⟩ := Step.formatText_ok formatted
  refine .allocation form.heap allocated _ ?_
  rw [Value.listBytes_length, Numeral.buffer_length]

theorem store_writes (form : m.WellFormed) {slots : UInt64}
    (stored : Step.store slots.toNat m = .ok next) :
    ∃ address data, next.heap = m.heap.writing address data ∧
      ∀ i, address ≤ i → i < address + data.length → (Op.store slots).StoresTo m i := by
  obtain ⟨address, size, required, named, -, -, rfl⟩ := Step.store_ok stored
  refine ⟨address, _, rfl, fun i low high => ⟨slots, address, rfl, ?_, low, ?_⟩⟩
  · rw [form.pointer] at required
    have enough := Word.add_le_of_saturatingAdd_le required form.length_lt_last
    rw [OperandStack.top?_eq_head?]
    cases live : m.stack.values with
    | nil => simp [live] at enough
    | cons top rest =>
      rw [live] at named
      exact Value.toIndex?_of_expectIndex named
  · rw [Value.listBytes_length, List.length_reverse] at high
    have count : (m.stack.values.tail.take slots.toNat).length ≤ slots.toNat := List.length_take_le ..
    exact high.trans_le (Nat.add_le_add_left (Nat.mul_le_mul_right _ count) _)

theorem step_isolates (form : m.WellFormed) (taken : op.step m = .ok next) :
    m.heap.Isolates (op.Frees m) (op.StoresTo m) next.heap := by
  by_cases writes : op.writesHeap = true
  · cases op with
    | allocate =>
      obtain ⟨address, answered⟩ := Action.map_snd_ok taken
      obtain ⟨count, rest, _, _, heap, -, -, -, allocated, rfl⟩ := Step.allocate_ok answered
      exact .allocation form.heap allocated [] (Nat.zero_le _)
    | free =>
      obtain ⟨top, count, rest, address, slots, size, heap, live, named, counted, sized, released, rfl⟩ :=
        Step.free_ok taken
      refine .release form.heap released ⟨rfl, top, count, rest, slots, live,
        Value.toIndex?_of_expectIndex named, Value.toIndex?_of_expectIndex counted, ?_⟩
      exact (Value.slotBytes_ok sized).1
    | store slots =>
      obtain ⟨address, data, written, named⟩ := store_writes form taken
      rw [written]
      exact .writing named
    | integerToText | floatToText =>
      obtain ⟨address, answered⟩ := Action.map_snd_ok taken
      exact formatText_isolates form answered
    | _ => cases writes
  -- All other operations keep the heap as it is, which is what they spare.
  · rw [(step_touches form taken).2.heap (by simpa using writes)]
    exact .refl

end Op

namespace Machine

variable {m next : Machine} {config : Config}

/-- Live blocks are isolated. Over an operation that succeeds, a block that it does not free stays live,
each byte of it that the operation does not store to stays as it is, and the blocks that the operation
creates lie apart from all that were live before. -/
theorem live_blocks_isolated (addressable : config.Addressable) (reachable : Reachable config m) (op : Op)
    {flow : Flow} (applied : op.apply m = .ok flow next) :
    (∀ b ∈ m.heap.live, ¬op.Frees m b → b ∈ next.heap.live ∧
      ∀ i, b.Covers i → ¬op.StoresTo m i → next.heap.bytes[i]? = m.heap.bytes[i]?) ∧
    ∀ c ∈ next.heap.live, c ∉ m.heap.live → ∀ b ∈ m.heap.live,
      c.stop ≤ b.address ∨ b.stop ≤ c.address := by
  have form := reachable.wellFormed addressable
  obtain ⟨taken, -⟩ := step_of_apply form applied
  have isolates := Op.step_isolates form taken
  exact ⟨fun b member stays => ⟨isolates.live b member stays, isolates.bytes b member stays⟩,
    isolates.apart⟩

/-- The block behind a freed one keeps the value that was stored in it. -/
theorem neighbour_isolated_from_free :
    let m := [Op.push (.ofNat 1), .allocate, .push (.ofNat 1), .allocate, .push (.ofNat 7),
      .push (.ofNat 4), .store 1, .push (.ofNat 1), .push (.ofNat 0)].foldl
        (fun m op => Action.after op.apply m) (fresh ⟨4, 8, 1⟩)
    m.heap.live = [⟨0, 4⟩, ⟨4, 4⟩] ∧ ∃ next, Op.free.apply m = .ok .next next ∧
      next.heap.live = [⟨4, 4⟩] ∧
      ∀ i, 4 ≤ i → i < 8 → next.heap.bytes[i]? = m.heap.bytes[i]? := by
  intro m
  have addressable : Config.Addressable ⟨4, 8, 1⟩ := ⟨by decide, by decide⟩
  have live : m.heap.live = [⟨0, 4⟩, ⟨4, 4⟩] := by decide +kernel
  have values : m.stack.values = [.ofNat 0, .ofNat 1, .ofNat 4, .ofNat 0] := by decide +kernel
  have reachable : Reachable ⟨4, 8, 1⟩ m := Reachable.fresh.operations _
  have applied : Op.free.apply m = .ok .next (Action.after Op.free.apply m) :=
    Op.apply_of_step (reachable.wellFormed addressable) (by decide +kernel) (by simp)
  have other : ¬Op.free.Frees m ⟨4, 4⟩ := by
    rintro ⟨-, top, count, rest, slots, found, named, -⟩
    rw [values] at found
    cases found
    exact absurd named (by decide)
  obtain ⟨kept, -⟩ := live_blocks_isolated addressable reachable Op.free applied
  obtain ⟨-, bytes⟩ := kept ⟨4, 4⟩ (live ▸ by decide) other
  refine ⟨live, _, applied, by decide +kernel, fun i low high => bytes i ⟨low, high⟩ ?_⟩
  rintro ⟨slots, address, same, -⟩
  cases same

end Machine
end StackMachine
