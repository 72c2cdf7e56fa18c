import Mathlib
import StackMachine.Proofs.StepRun

/-! What calls of the allocator add up to. A request is served at the least address where enough bytes are
free and enters one block; a release takes one block out. A ledger goes along with the calls and keeps the
blocks that they hold, so that at every moment the table of the heap is made of those blocks and of the ones
that were live before. The table determines the map. When all that was handed out has been given back, in
whatever order, table and map are therefore the old ones. -/
namespace StackMachine

namespace Block

variable {table other : List Block} {b : Block}

theorem Ordered.nodup (ordered : Ordered table) (filled : ∀ c ∈ table, 0 < c.size) : table.Nodup := by
  refine ordered.imp_of_mem fun {b c} member _ order same => ?_
  have extent := filled b member
  subst same
  simp only [stop] at order
  omega

theorem Ordered.erase_eq (ordered : Ordered table) (filled : ∀ c ∈ table, 0 < c.size)
    (member : b ∈ table) : Block.erase table b.address = table.erase b := by
  rw [(ordered.nodup filled).erase_eq_filter, Block.erase]
  refine List.filter_congr fun c live => ?_
  have named : c.address = b.address ↔ c = b :=
    ⟨ordered.eq_of_address filled live member, fun same => same ▸ rfl⟩
  simp [bne, named]

theorem Ordered.eq_of_perm (ordered : Ordered table) (sorted : Ordered other)
    (filled : ∀ c ∈ table, 0 < c.size) (same : table.Perm other) : table = other := by
  refine List.Perm.eq_of_pairwise (fun b c memberB memberC before behind => ?_) ordered sorted same
  have extentB := filled b memberB
  have extentC := filled c (same.mem_iff.mpr memberC)
  simp only [stop] at before behind
  omega

end Block

namespace Heap

variable {h other : Heap} {address size n i : Nat}

theorem Sound.taken_eq (sound : h.Sound) (sound' : other.Sound) (sizes : h.size = other.size)
    (tables : h.live = other.live) : h.taken = other.taken := by
  have lengths : h.taken.size = other.taken.size := by
    rw [sound.mapSize, sound'.mapSize, sizes]
  refine Array.ext lengths fun i inside inside' => ?_
  have agree : h.taken[i]? = some true ↔ other.taken[i]? = some true := by
    rw [sound.agrees, sound'.agrees, tables]
  rw [Array.getElem?_eq_getElem inside, Array.getElem?_eq_getElem inside'] at agree
  simpa using agree

theorem allocation_first_fit (sound : h.Sound) (positive : 0 < n) :
    (∃ address, IsLeast {a | FreeAt h.taken.toList a n} address ∧ address + n ≤ h.size ∧
      h.allocation n = .ok (address, h.taking address n)) ∨
    (∀ address, ¬FreeAt h.taken.toList address n) ∧
      h.allocation n = .error (.noFreeMemory n h.largestFreeRun) := by
  rw [allocation, if_neg (Nat.pos_iff_ne_zero.mp positive)]
  cases found : runEnd n 0 0 h.taken.toList with
  | none => exact .inr ⟨(runEnd_eq_none_iff positive).mp found, rfl⟩
  | some stop =>
    obtain ⟨fits, inside, least⟩ := runEnd_least positive found
    rw [Array.length_toList, sound.mapSize] at inside
    exact .inl ⟨stop - n, least, by omega, rfl⟩

theorem allocate_cases (sound : h.Sound) (words : h.size < Word.limit) (positive : 0 < n) :
    (∃ address, IsLeast {a | FreeAt h.taken.toList a n} address ∧ address + n ≤ h.size ∧
      allocate n h = .ok address (h.taking address n)) ∨
    (∀ address, ¬FreeAt h.taken.toList address n) ∧
      allocate n h = .error (.noFreeMemory n h.largestFreeRun) h := by
  rw [allocate_run sound words]
  obtain ⟨address, least, inside, served⟩ | ⟨nowhere, refused⟩ := allocation_first_fit sound positive
  · exact .inl ⟨address, least, inside, by rw [served]; rfl⟩
  · exact .inr ⟨nowhere, by rw [refused]; rfl⟩

theorem largestFreeRun_isGreatest (h : Heap) :
    IsGreatest {k | ∃ address, FreeAt h.taken.toList address k} h.largestFreeRun := by
  refine ⟨?_, fun k free => ?_⟩
  · obtain empty | positive := Nat.eq_zero_or_pos h.largestFreeRun
    · exact ⟨0, fun i low high => by omega⟩
    · exact (le_longestRun positive).mp le_rfl
  · obtain rfl | positive := Nat.eq_zero_or_pos k
    · exact Nat.zero_le _
    · exact (le_longestRun positive).mpr free

/-- First fit is exact. A request for some bytes succeeds exactly if the longest run of free bytes has as
many. It is served at the least address from which on so many bytes exist and are free; the map takes those
bytes and no others, the table gains that one block, and no byte is written. A request that fails changes
nothing and says what it asked for and how long the longest run is, which is less. -/
theorem first_fit_exact {size : Nat} (words : size < Word.limit) (reached : Reachable size h)
    (positive : 0 < n) :
    IsGreatest {k | ∃ address, FreeAt h.taken.toList address k} h.largestFreeRun ∧
    ((∃ address next, allocate n h = .ok address next) ↔ n ≤ h.largestFreeRun) ∧
    (∀ address next, allocate n h = .ok address next →
      IsLeast {a | FreeAt h.taken.toList a n} address ∧
      (∀ i, next.taken[i]? = if address ≤ i ∧ i < address + n then some true else h.taken[i]?) ∧
      (∀ b ∈ h.live, b.address ≠ address) ∧ next.live.Perm (⟨address, n⟩ :: h.live) ∧
      next.bytes = h.bytes) ∧
    (∀ fault next, allocate n h = .error fault next →
      next = h ∧ fault = .noFreeMemory n h.largestFreeRun ∧ h.largestFreeRun < n) := by
  obtain ⟨sound, rfl⟩ := reached.sound
  have enough : n ≤ h.largestFreeRun ↔ ∃ address, FreeAt h.taken.toList address n :=
    le_longestRun positive
  refine ⟨h.largestFreeRun_isGreatest, ?_⟩
  obtain ⟨address, least, inside, run⟩ | ⟨nowhere, run⟩ := allocate_cases sound words positive
  · have free : FreeAt h.taken.toList address n := least.1
    have fresh : ∀ b ∈ h.live, b.address ≠ address :=
      fun b member => sound.fresh_of_free positive free member
    rw [run]
    refine ⟨⟨fun _ => enough.mpr ⟨address, free⟩, fun _ => ⟨_, _, rfl⟩⟩, ?_, by rintro _ _ ⟨⟩⟩
    rintro _ _ ⟨⟩
    exact ⟨least, sound.taking_taken inside, fresh, Block.insert_perm fresh, rfl⟩
  · have short : ¬n ≤ h.largestFreeRun := fun fits => by
      obtain ⟨address, free⟩ := enough.mp fits
      exact nowhere address free
    rw [run]
    refine ⟨⟨by rintro ⟨_, _, ⟨⟩⟩, fun fits => absurd fits short⟩, by rintro _ _ ⟨⟩, ?_⟩
    rintro _ _ ⟨⟩
    exact ⟨rfl, rfl, Nat.not_le.mp short⟩

/-- A hole of two bytes is passed over for three, and five are too many for the four behind the block. -/
theorem first_fit_behind_short_hole :
    let h := Action.after (free 0 2) (Action.after (allocate 2) (Action.after (allocate 2) (empty 8)))
    h.taken = #[false, false, true, true, false, false, false, false] ∧
      (∃ next, allocate 3 h = .ok 4 next ∧ IsLeast {a | FreeAt h.taken.toList a 3} 4) ∧
      allocate 5 h = .error (.noFreeMemory 5 4) h ∧ 4 < 5 := by
  intro h
  have words : 8 < Word.limit := by decide
  have reached : Reachable 8 h := .free 0 2 (.allocate 2 (.allocate 2 .empty))
  have served : allocate 3 h = .ok 4 (Action.after (allocate 3) h) := rfl
  have refused : allocate 5 h = .error (.noFreeMemory 5 4) h := rfl
  obtain ⟨-, -, success, -⟩ := first_fit_exact words reached (n := 3) (by decide)
  obtain ⟨-, -, -, failure⟩ := first_fit_exact words reached (n := 5) (by decide)
  have largest : h.largestFreeRun = 4 := by decide
  refine ⟨by decide, ⟨_, served, (success _ _ served).1⟩, refused, ?_⟩
  exact largest ▸ (failure _ _ refused).2.2

end Heap

inductive AllocatorCall where
  | allocate (size : Nat)
  | free (address size : Nat)
  deriving DecidableEq, Repr, Inhabited

/-- A heap under calls of the allocator, with the blocks that these calls hold and all the blocks that they
have been given so far. -/
structure Ledger where
  heap : Heap
  held : List Block
  given : List Block
  deriving DecidableEq, Repr, Inhabited

namespace Ledger

variable {h : Heap} {l : Ledger} {address size : Nat}

def ofHeap (h : Heap) : Ledger := ⟨h, [], []⟩

/-- A request that succeeds adds its block to those held, a release takes out the block that it names. -/
def after (l : Ledger) : AllocatorCall → Ledger
  | .allocate size =>
      match Heap.allocate size l.heap with
      | .ok address heap => ⟨heap, ⟨address, size⟩ :: l.held, ⟨address, size⟩ :: l.given⟩
      | .error _ heap => ⟨heap, l.held, l.given⟩
  | .free address size =>
      ⟨Action.after (Heap.free address size) l.heap, l.held.erase ⟨address, size⟩, l.given⟩

def run (l : Ledger) (calls : List AllocatorCall) : Ledger := calls.foldl after l

def blocks (l : Ledger) : List Block := l.held.filter (0 < ·.size)

theorem mem_blocks {b : Block} : b ∈ l.blocks ↔ b ∈ l.held ∧ 0 < b.size := by simp [blocks]

/-- The books of calls that began with the heap `h`: its blocks and the ones held make up the table; what
has been given is held or cleared; and what has not been given is as it was. -/
structure Balanced (h : Heap) (l : Ledger) : Prop where
  sound : l.heap.Sound
  size : l.heap.size = h.size
  table : l.heap.live.Perm (l.blocks ++ h.live)
  given : l.held ⊆ l.given
  cleared : ∀ b ∈ l.given, ∀ i, b.Covers i → (∃ c ∈ l.held, c.Covers i) ∨ l.heap.bytes[i]? = some 0
  kept : ∀ i, (∀ b ∈ l.given, ¬b.Covers i) → l.heap.bytes[i]? = h.bytes[i]?

theorem balanced_ofHeap (sound : h.Sound) : Balanced h (ofHeap h) :=
  ⟨sound, rfl, .refl _, List.nil_subset _, nofun, fun _ _ => rfl⟩

namespace Balanced

theorem gain (balanced : Balanced h l) {heap : Heap} {b : Block} (sound : heap.Sound)
    (bytes : heap.bytes = l.heap.bytes)
    (table : heap.live.Perm ([b].filter (0 < ·.size) ++ l.heap.live)) :
    Balanced h ⟨heap, b :: l.held, b :: l.given⟩ where
  sound := sound
  size := by rw [← balanced.size, Heap.size, bytes, Heap.size]
  table := by
    have joined : (⟨heap, b :: l.held, b :: l.given⟩ : Ledger).blocks =
        [b].filter (0 < ·.size) ++ l.blocks := List.filter_append [b] l.held
    rw [joined, List.append_assoc]
    exact table.trans (balanced.table.append_left _)
  given := List.cons_subset_cons b balanced.given
  cleared := by
    intro c member i covers
    rw [bytes]
    rcases List.mem_cons.mp member with rfl | earlier
    · exact .inl ⟨c, List.mem_cons_self, covers⟩
    · refine (balanced.cleared c earlier i covers).imp_left ?_
      rintro ⟨d, held, covers⟩
      exact ⟨d, List.mem_cons_of_mem b held, covers⟩
  kept := by
    intro i outside
    rw [bytes]
    exact balanced.kept i fun c member => outside c (List.mem_cons_of_mem b member)

theorem after_allocate (balanced : Balanced h l) (words : l.heap.size < Word.limit) (size : Nat) :
    Balanced h (l.after (.allocate size)) := by
  obtain rfl | positive := Nat.eq_zero_or_pos size
  · exact balanced.gain balanced.sound rfl (.refl _)
  rw [after]
  obtain ⟨address, least, inside, run⟩ | ⟨-, run⟩ := Heap.allocate_cases balanced.sound words positive
  · have free : Heap.FreeAt l.heap.taken.toList address size := least.1
    have entered : (l.heap.taking address size).live.Perm (⟨address, size⟩ :: l.heap.live) :=
      Block.insert_perm fun c member => balanced.sound.fresh_of_free positive free member
    rw [run]
    exact balanced.gain (balanced.sound.taking positive inside free) rfl (by simpa [positive] using entered)
  · rw [run]
    exact balanced

theorem free_eq (balanced : Balanced h l) (words : l.heap.size < Word.limit)
    (held : ⟨address, size⟩ ∈ l.held) :
    Heap.free address size l.heap =
      .ok () (if size = 0 then l.heap else l.heap.releasing address size) := by
  rw [Heap.free_run balanced.sound words, Heap.release]
  by_cases empty : size = 0
  · rw [if_pos empty, if_pos empty]
    rfl
  · have live : (⟨address, size⟩ : Block) ∈ l.heap.live := by
      rw [balanced.table.mem_iff, List.mem_append, mem_blocks]
      exact .inl ⟨held, Nat.pos_of_ne_zero empty⟩
    rw [if_neg empty, if_pos live, if_neg empty]
    rfl

theorem lose (balanced : Balanced h l) {heap : Heap} {b : Block} (held : b ∈ l.held)
    (sound : heap.Sound) (size : heap.size = l.heap.size)
    (bytes : ∀ i, (b.Covers i → heap.bytes[i]? = some 0) ∧
      (¬b.Covers i → heap.bytes[i]? = l.heap.bytes[i]?))
    (table : heap.live.Perm (l.blocks.erase b ++ h.live)) :
    Balanced h ⟨heap, l.held.erase b, l.given⟩ where
  sound := sound
  size := size.trans balanced.size
  table := by
    have shorter : (⟨heap, l.held.erase b, l.given⟩ : Ledger).blocks = l.blocks.erase b :=
      List.erase_filter.symm
    rw [shorter]
    exact table
  given := fun _ member => balanced.given (List.mem_of_mem_erase member)
  cleared := by
    intro c member i covers
    by_cases gone : b.Covers i
    · exact .inr ((bytes i).1 gone)
    · rw [(bytes i).2 gone]
      refine (balanced.cleared c member i covers).imp_left ?_
      rintro ⟨d, held, covers⟩
      have other : d ≠ b := fun same => gone (same ▸ covers)
      exact ⟨d, (List.mem_erase_of_ne other).mpr held, covers⟩
  kept := by
    intro i outside
    rw [(bytes i).2 (outside b (balanced.given held))]
    exact balanced.kept i outside

theorem after_free (balanced : Balanced h l) (words : l.heap.size < Word.limit)
    (held : ⟨address, size⟩ ∈ l.held) : Balanced h (l.after (.free address size)) := by
  rw [after, Action.after_ok (balanced.free_eq words held)]
  by_cases empty : size = 0
  · rw [if_pos empty]
    refine balanced.lose held balanced.sound rfl (fun i => ⟨fun covers => ?_, fun _ => rfl⟩) ?_
    · simp only [Block.Covers, Block.stop] at covers
      omega
    · rw [List.erase_of_not_mem fun member => (mem_blocks.mp member).2.ne' empty]
      exact balanced.table
  · rw [if_neg empty]
    have block : (⟨address, size⟩ : Block) ∈ l.blocks := mem_blocks.mpr ⟨held, Nat.pos_of_ne_zero empty⟩
    have live : (⟨address, size⟩ : Block) ∈ l.heap.live :=
      balanced.table.mem_iff.mpr (List.mem_append_left _ block)
    have bytes := balanced.sound.releasing_bytes live
    refine balanced.lose held (balanced.sound.releasing live) (Heap.releasing_size ..)
      (fun i => ⟨fun covers => (bytes i).trans (if_pos covers),
        fun outside => (bytes i).trans (if_neg outside)⟩) ?_
    · -- The table less the block is made of what is held less the block and of the old ones.
      have erased : (l.heap.releasing address size).live = l.heap.live.erase ⟨address, size⟩ :=
        balanced.sound.ordered.erase_eq balanced.sound.filled live
      rw [erased, ← List.erase_append_left _ block]
      exact balanced.table.erase _

end Balanced

theorem Balanced.after (balanced : Balanced h l) (words : h.size < Word.limit) {call : AllocatorCall}
    (named : ∀ address size, call = .free address size → ⟨address, size⟩ ∈ l.held) :
    Balanced h (l.after call) := by
  rw [← balanced.size] at words
  cases call with
  | allocate size => exact balanced.after_allocate words size
  | free address size => exact balanced.after_free words (named address size rfl)

/-- When no bytes are held any more, the table is the old one, and with it the map. -/
theorem Balanced.settled (balanced : Balanced h l) (sound : h.Sound) (nothing : ∀ b ∈ l.held, b.size = 0) :
    l.heap.taken = h.taken ∧ l.heap.live = h.live ∧
      ∀ b ∈ l.given, ∀ i, b.Covers i → l.heap.bytes[i]? = some 0 := by
  have empty : l.blocks = [] := by
    refine List.filter_eq_nil_iff.mpr fun b member => ?_
    simp [nothing b member]
  have table := balanced.table
  rw [empty, List.nil_append] at table
  have tables : l.heap.live = h.live :=
    balanced.sound.ordered.eq_of_perm sound.ordered balanced.sound.filled table
  refine ⟨balanced.sound.taken_eq sound balanced.size tables, tables, fun b member i covers => ?_⟩
  refine (balanced.cleared b member i covers).resolve_left ?_
  rintro ⟨c, held, low, high⟩
  have extent := nothing c held
  simp only [Block.stop] at high
  omega

end Ledger

namespace Heap

variable {h : Heap}

/-- Everything handed out and given back leaves no trace. Take any calls of the allocator, in any order, that
release only what they were given and still hold, and that hold no bytes at the end. Each release succeeds,
and the map and the table at the end are those at the start; the bytes of all blocks that were given out are
zero, and the others are as they were. A release that names no live block is refused and changes nothing. -/
theorem given_back_leaves_no_trace {size : Nat} (words : size < Word.limit) (reached : Reachable size h) :
    (∀ calls : List AllocatorCall,
      (∀ k address n, calls[k]? = some (.free address n) →
        ⟨address, n⟩ ∈ ((Ledger.ofHeap h).run (calls.take k)).held) →
      (∀ b ∈ ((Ledger.ofHeap h).run calls).held, b.size = 0) →
      let final := (Ledger.ofHeap h).run calls
      (∀ k address n, calls[k]? = some (.free address n) →
        ∃ next, free address n ((Ledger.ofHeap h).run (calls.take k)).heap = .ok () next) ∧
      final.heap.taken = h.taken ∧ final.heap.live = h.live ∧
      (∀ b ∈ final.given, ∀ i, b.Covers i → final.heap.bytes[i]? = some 0) ∧
      (∀ i, (∀ b ∈ final.given, ¬b.Covers i) → final.heap.bytes[i]? = h.bytes[i]?)) ∧
    ∀ address n, n ≠ 0 → ⟨address, n⟩ ∉ h.live → free address n h = .error (.invalidFree address n) h := by
  obtain ⟨sound, rfl⟩ := reached.sound
  refine ⟨fun calls named settled => ?_, fun address n positive gone => ?_⟩
  · have balanced (k : Nat) : Ledger.Balanced h ((Ledger.ofHeap h).run (calls.take k)) :=
      Action.run_induction (Ledger.balanced_ofHeap sound) (fun k call found balanced =>
        balanced.after words fun address n same => named k address n (same ▸ found)) k
    have whole : Ledger.Balanced h ((Ledger.ofHeap h).run calls) := by
      simpa using balanced calls.length
    obtain ⟨map, table, cleared⟩ := whole.settled sound settled
    refine ⟨fun k address n found => ?_, map, table, cleared, whole.kept⟩
    exact ⟨_, (balanced k).free_eq ((balanced k).size ▸ words) (named k address n found)⟩
  · rw [free_eq sound address positive, if_neg gone]

/-- Two blocks beside a live one, the first given back and its hole split before the rest is. -/
theorem split_hole_leaves_no_trace :
    let h := Action.after (write 5 [9]) (Action.after (allocate 4) (empty 16))
    let calls := [AllocatorCall.allocate 4, .allocate 4, .free 4 4, .allocate 2, .free 8 4, .free 4 2]
    let final := (Ledger.ofHeap h).run calls
    final.given = [⟨4, 2⟩, ⟨8, 4⟩, ⟨4, 4⟩] ∧ h.live = [⟨0, 4⟩] ∧ final.heap.live = h.live ∧
      final.heap.taken = h.taken ∧ h.bytes[5]? = some 9 ∧ final.heap.bytes[5]? = some 0 ∧
      free 6 2 h = .error (.invalidFree 6 2) h := by
  intro h calls final
  have reached : Reachable 16 h := .write 5 [9] (.allocate 4 .empty)
  have live : h.live = [⟨0, 4⟩] := by decide
  have given : final.given = [⟨4, 2⟩, ⟨8, 4⟩, ⟨4, 4⟩] := by decide +kernel
  have named (k address n : Nat) (found : calls[k]? = some (.free address n)) :
      ⟨address, n⟩ ∈ ((Ledger.ofHeap h).run (calls.take k)).held := by
    have early : k < 6 := (List.getElem?_eq_some_iff.mp found).1
    interval_cases k <;> simp [calls] at found <;> obtain ⟨rfl, rfl⟩ := found <;> decide +kernel
  have settled : ∀ b ∈ final.held, b.size = 0 := by decide +kernel
  obtain ⟨restored, refused⟩ := given_back_leaves_no_trace (by decide) reached
  obtain ⟨-, map, table, cleared, -⟩ := restored calls named settled
  refine ⟨given, live, table, map, by decide, ?_, refused 6 2 (by decide) (by decide)⟩
  exact cleared ⟨4, 2⟩ (given ▸ by decide) 5 ⟨by decide, by decide⟩

end Heap
end StackMachine
