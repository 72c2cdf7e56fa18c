import Mathlib
import StackMachine.Proofs.Isolation

/-! Free memory is clean. No call of the allocator clears the bytes that it hands out; that they are zero
all the same is owed to `free`, which clears what it gives up, and to programs that store to live blocks
only. `Heap.Clean` says that the bytes of no block are zero. It holds of an empty heap, a step keeps it as
long as the step stores to no free byte, and so it holds in every state of a run of such steps. -/
namespace StackMachine

namespace Heap

variable {h next : Heap} {address size i : Nat}

def Vacant (h : Heap) (i : Nat) : Prop := i < h.size ∧ ∀ b ∈ h.live, ¬b.Covers i

def Clean (h : Heap) : Prop := ∀ i, h.Vacant i → h.bytes[i]? = some 0

theorem empty_clean (size : Nat) : (empty size).Clean := by
  intro i vacant
  have inside : i < size := by simpa [empty, Heap.size] using vacant.1
  simp [empty, inside]

theorem Clean.writing (clean : h.Clean) {data : List UInt8}
    (inside : ∀ i, address ≤ i → i < address + data.length → ∃ b ∈ h.live, b.Covers i) :
    (h.writing address data).Clean := by
  intro i vacant
  have old : h.Vacant i := ⟨writing_size h address data ▸ vacant.1, vacant.2⟩
  rw [writing_beside]
  · exact clean i old
  · rintro ⟨low, high⟩
    obtain ⟨b, member, covers⟩ := inside i low high
    exact old.2 b member covers

theorem vacant_of_allocation (sound : h.Sound) (allocated : h.allocation size = .ok (address, next))
    (low : address ≤ i) (high : i < address + size) : h.Vacant i := by
  obtain ⟨inside, -, -⟩ := allocation_ok sound allocated
  refine ⟨by omega, fun b member covers => ?_⟩
  obtain ⟨rfl, -⟩ | ⟨-, -, -, apart⟩ := allocation_cases sound allocated
  · omega
  · have beside := apart b member
    obtain ⟨start, stop⟩ := covers
    omega

theorem Clean.allocation (clean : h.Clean) (sound : h.Sound)
    (allocated : h.allocation size = .ok (address, next)) : next.Clean := by
  obtain ⟨-, rfl⟩ | ⟨-, same, entered, -⟩ := allocation_cases sound allocated
  · exact clean
  · intro i vacant
    have inside : i < h.size := by simpa only [Heap.size, same] using vacant.1
    rw [same]
    exact clean i ⟨inside, fun b member => vacant.2 b ((entered b).mpr (.inr member))⟩

theorem Clean.handedOut (clean : h.Clean) (sound : h.Sound)
    (allocated : h.allocation size = .ok (address, next)) (low : address ≤ i)
    (high : i < address + size) : next.bytes[i]? = some 0 := by
  have zero := clean i (vacant_of_allocation sound allocated low high)
  obtain ⟨rfl, -⟩ | ⟨-, same, -, -⟩ := allocation_cases sound allocated
  · omega
  · rw [same]
    exact zero

theorem Clean.release (clean : h.Clean) (sound : h.Sound)
    (released : h.release address size = .ok next) : next.Clean := by
  rw [Heap.release] at released
  split_ifs at released with empty member
  · cases released
    exact clean
  cases released
  intro i vacant
  have inside : i < h.size := releasing_size h address size ▸ vacant.1
  rw [sound.releasing_bytes member]
  split
  case isTrue => rfl
  case isFalse cleared =>
    refine clean i ⟨inside, fun b live covers => ?_⟩
    by_cases named : b.address = address
    · -- The one block at that address is the block that is given up.
      obtain rfl := sound.ordered.eq_of_address sound.filled live member named
      exact cleared covers
    · exact vacant.2 b (Block.mem_erase.mpr ⟨live, named⟩) covers

end Heap

namespace Op

variable {op : Op} {m next : Machine}

/-- The operation, if it succeeds, stores to bytes of live blocks only. -/
def StoresInBlocks (op : Op) (m : Machine) : Prop :=
  ∀ flow next, op.apply m = .ok flow next → ∀ i, op.StoresTo m i → ∃ b ∈ m.heap.live, b.Covers i

theorem formatText_clean (form : m.WellFormed) (clean : m.heap.Clean) {kind : Numeral.Kind}
    {operation : String} {address : Nat}
    (formatted : Step.formatText kind operation m = .ok (address, next)) : next.heap.Clean := by
  obtain ⟨v, rest, heap, -, allocated, rfl⟩ := Step.formatText_ok formatted
  refine (clean.allocation form.heap allocated).writing fun i low high => ?_
  rw [Value.listBytes_length, Numeral.buffer_length] at high
  obtain ⟨empty, -⟩ | ⟨-, -, entered, -⟩ := Heap.allocation_cases form.heap allocated
  · simp [Numeral.bufferSlots, Value.slotSize] at empty
  · exact ⟨_, (entered _).mpr (.inl rfl), low, high⟩

theorem step_clean (form : m.WellFormed) (clean : m.heap.Clean) (taken : op.step m = .ok next)
    (tidy : ∀ i, op.StoresTo m i → ∃ b ∈ m.heap.live, b.Covers i) : next.heap.Clean := by
  by_cases writes : op.writesHeap = false
  · rw [(step_touches form taken).2.heap writes]
    exact clean
  cases op with
  | allocate =>
    obtain ⟨address, answered⟩ := Action.map_snd_ok taken
    obtain ⟨count, rest, _, _, heap, -, -, -, allocated, rfl⟩ := Step.allocate_ok answered
    exact clean.allocation form.heap allocated
  | free =>
    obtain ⟨_, _, _, _, _, _, heap, -, -, -, -, released, rfl⟩ := Step.free_ok taken
    exact clean.release form.heap released
  | store slots =>
    obtain ⟨address, data, written, named⟩ := store_writes form taken
    rw [written]
    exact clean.writing fun i low high => tidy i (named i low high)
  | integerToText | floatToText =>
    obtain ⟨address, answered⟩ := Action.map_snd_ok taken
    exact formatText_clean form clean answered
  | _ => exact absurd rfl writes

end Op

namespace Machine

variable {m : Machine} {config : Config}

theorem after_clean (form : m.WellFormed) (clean : m.heap.Clean) {request : Request}
    (tidy : ∀ op, request = .apply op → op.StoresInBlocks m) : (request.after m).heap.Clean := by
  cases request with
  | apply op =>
    obtain ⟨next, step, run⟩ | ⟨fault, next, run, heap, -⟩ := apply_ends form op
    · rw [Request.after, Action.after_ok run]
      exact Op.step_clean form clean step (tidy op rfl _ _ run)
    · rw [Request.after, Action.after_error run, heap]
      exact clean
  | pop =>
    obtain ⟨stack, same⟩ := after_onStack (m := m) OperandStack.pop
    rw [Request.after, Machine.pop, same]
    exact clean

/-- A block of as many slots as the value on top says has been handed out, at the address that takes its
place there, and it is all zeros. -/
def HandsOutZeros (m next : Machine) : Prop :=
  ∃ slots address, m.stack.top?.bind Value.toIndex? = some slots ∧
    next.stack.top? = some (Value.ofNat address) ∧
    (0 < slots → (⟨address, slots * Value.slotSize⟩ : Block) ∈ next.heap.live) ∧
    ∀ i, address ≤ i → i < address + slots * Value.slotSize → next.heap.bytes[i]? = some 0

theorem allocate_clean (form : m.WellFormed) (clean : m.heap.Clean) {flow : Flow} {next : Machine}
    (applied : Op.allocate.apply m = .ok flow next) : m.HandsOutZeros next := by
  obtain ⟨taken, -⟩ := step_of_apply form applied
  obtain ⟨address, answered⟩ := Action.map_snd_ok taken
  obtain ⟨count, rest, slots, size, heap, live, counted, sized, allocated, rfl⟩ :=
    Step.allocate_ok answered
  obtain ⟨rfl, -⟩ := Value.slotBytes_ok sized
  refine ⟨slots, address, ?_, ?_, fun wanted => ?_, fun i low high => ?_⟩
  · rw [OperandStack.top?_eq_head?, live]
    exact Value.toIndex?_of_expectIndex counted
  · rw [OperandStack.top?_eq_head?]
    exact congrArg List.head? keeping_values
  · obtain ⟨empty, -⟩ | ⟨-, -, entered, -⟩ := Heap.allocation_cases form.heap allocated
    · simp only [Value.slotSize] at empty
      omega
    · exact (entered _).mpr (.inl rfl)
  · exact clean.handedOut form.heap allocated low high

/-- Freed memory stays clean. In every state of a run whose stores write to live blocks only, each byte
outside the live blocks is zero, and the block that `allocate` hands out there is all zeros. -/
theorem free_memory_stays_clean (addressable : config.Addressable) {requests : List Request}
    (tidy : ∀ k (op : Op), requests[k]? = some (Request.apply op) →
      op.StoresInBlocks ((fresh config).serve (requests.take k))) (k : Nat) :
    let m := (fresh config).serve (requests.take k)
    (∀ i < m.heap.size, (∀ b ∈ m.heap.live, ¬b.Covers i) → m.heap.bytes[i]? = some 0) ∧
    ∀ flow next, Op.allocate.apply m = .ok flow next → m.HandsOutZeros next := by
  intro m
  have form (k : Nat) : ((fresh config).serve (requests.take k)).WellFormed :=
    (Reachable.fresh.serve _).wellFormed addressable
  have clean : m.heap.Clean :=
    serve_induction (P := fun m => m.heap.Clean) (Heap.empty_clean _)
      (fun k request found clean => after_clean (form k) clean fun op same => tidy k op (same ▸ found)) k
  exact ⟨fun i inside outside => clean i ⟨inside, outside⟩,
    fun flow next applied => allocate_clean (form k) clean applied⟩

/-- A block that was written to and freed is handed out again as zeros. -/
theorem reused_block_is_clean :
    let requests := [Op.push (.ofNat 1), .allocate, .push (.ofNat 7), .push (.ofNat 0), .store 1,
      .push (.ofNat 1), .push (.ofNat 0), .free, .push (.ofNat 1)].map Request.apply
    let used := (fresh ⟨4, 8, 1⟩).serve (requests.take 5)
    let freed := (fresh ⟨4, 8, 1⟩).serve (requests.take 9)
    used.heap.bytes[3]? = some 0x40 ∧ freed.heap.live = [] ∧
      ∃ next, Op.allocate.apply freed = .ok .next next ∧ (⟨0, 4⟩ : Block) ∈ next.heap.live ∧
        ∀ i < 4, next.heap.bytes[i]? = some 0 := by
  intro requests used freed
  have addressable : Config.Addressable ⟨4, 8, 1⟩ := ⟨by decide, by decide⟩
  have tidy (k : Nat) (op : Op) (found : requests[k]? = some (.apply op)) :
      op.StoresInBlocks ((fresh ⟨4, 8, 1⟩).serve (requests.take k)) := by
    rintro flow next - i ⟨slots, address, rfl, named, low, high⟩
    obtain ⟨rfl, rfl⟩ : k = 4 ∧ slots = 1 := by
      have early : k < 9 := (List.getElem?_eq_some_iff.mp found).1
      interval_cases k <;> simp_all [requests]
    have top : ((fresh ⟨4, 8, 1⟩).serve (requests.take 4)).stack.top?.bind Value.toIndex? = some 0 := by
      decide +kernel
    rw [top] at named
    cases named
    exact ⟨⟨0, 4⟩, by decide +kernel, low, high⟩
  obtain ⟨-, handsOut⟩ := free_memory_stays_clean addressable tidy 9
  have applied : Op.allocate.apply freed = .ok .next (Action.after Op.allocate.apply freed) :=
    Op.apply_of_step ((Reachable.fresh.serve _).wellFormed addressable) (by decide +kernel) (by simp)
  obtain ⟨slots, address, counted, top, block, zeros⟩ := handsOut _ _ applied
  have one : freed.stack.top?.bind Value.toIndex? = some 1 := by decide +kernel
  have live : (Action.after Op.allocate.apply freed).heap.live = [⟨0, 4⟩] := by decide +kernel
  obtain rfl : 1 = slots := Option.some.inj (one.symm.trans counted)
  obtain rfl : address = 0 := by
    have member := block Nat.one_pos
    rw [live, List.mem_singleton] at member
    exact congrArg Block.address member
  exact ⟨by decide +kernel, by decide +kernel, _, applied, block Nat.one_pos,
    fun i low => zeros i (Nat.zero_le i) (by simpa [Value.slotSize] using low)⟩

end Machine
end StackMachine
