import Mathlib
import StackMachine.Proofs.Action
import StackMachine.Proofs.FreeRuns

/-! The allocator keeps one fact twice, as a map of the bytes that are taken and as a table of the live
blocks. `Heap.Sound` says that the two agree: blocks are not empty, lie in the arena one behind the
other, and cover exactly the bytes that the map takes. Every call keeps it, whatever its arguments and
whichever way it ends. The total of the table is then the number of bytes that are taken. -/
namespace StackMachine

theorem Cells.overlay_replicate_getElem? {α : Type} {cells : Array α} {start count : Nat} (x : α)
    (inside : start + count ≤ cells.size) (i : Nat) :
    (overlay cells start (List.replicate count x))[i]? =
      if start ≤ i ∧ i < start + count then some x else cells[i]? := by
  rw [overlay_getElem?, List.length_replicate, List.getElem?_replicate]
  by_cases within : start ≤ i ∧ i < start + count
  · rw [if_pos (by omega), if_pos (by omega), if_pos within]
  · rw [if_neg (by omega), if_neg within]

namespace Block

def Covers (b : Block) (i : Nat) : Prop := b.address ≤ i ∧ i < b.stop

def Ordered (table : List Block) : Prop := table.Pairwise fun b c => b.stop ≤ c.address

/-- A block is entered beside the others, unless there is one at its address. -/
theorem insert_perm {b : Block} {table : List Block} (fresh : ∀ c ∈ table, c.address ≠ b.address) :
    (insert b table).Perm (b :: table) := by
  induction table with
  | nil => rfl
  | cons d rest ih =>
    have apart := fresh d List.mem_cons_self
    have tail := ih fun c member => fresh c (List.mem_cons_of_mem d member)
    rw [insert]
    split
    · rfl
    · rw [if_neg (Ne.symm apart)]
      exact (tail.cons d).trans (.swap b d rest)

theorem mem_insert {b c : Block} {table : List Block} (fresh : ∀ d ∈ table, d.address ≠ b.address) :
    c ∈ insert b table ↔ c = b ∨ c ∈ table := by
  rw [(insert_perm fresh).mem_iff, List.mem_cons]

theorem insert_ordered {b : Block} {table : List Block} (ordered : Ordered table)
    (apart : ∀ c ∈ table, c.stop ≤ b.address ∨ b.stop ≤ c.address) (positive : 0 < b.size)
    (filled : ∀ c ∈ table, 0 < c.size) : Ordered (insert b table) := by
  induction table with
  | nil => simp [insert, Ordered]
  | cons d rest ih =>
    obtain ⟨first, tail⟩ := List.pairwise_cons.mp ordered
    have head := apart d List.mem_cons_self
    have extent := filled d List.mem_cons_self
    simp only [stop] at head first
    rw [insert]
    split
    · refine List.pairwise_cons.mpr ⟨fun c member => ?_, ordered⟩
      simp only [stop]
      rcases List.mem_cons.mp member with rfl | member
      · omega
      · have later := first c member
        omega
    -- A block that shared its address would share its first byte, so nothing is overwritten further on.
    · rw [if_neg (by omega)]
      have fresh : ∀ c ∈ rest, c.address ≠ b.address := by
        intro c member same
        have bound := filled c (List.mem_cons_of_mem d member)
        have side := apart c (List.mem_cons_of_mem d member)
        simp only [stop] at side
        omega
      have entered := ih tail (fun c member => apart c (List.mem_cons_of_mem d member))
        fun c member => filled c (List.mem_cons_of_mem d member)
      refine List.pairwise_cons.mpr ⟨fun c member => ?_, entered⟩
      rcases (mem_insert fresh).mp member with rfl | member
      · simp only [stop]
        omega
      · exact first c member

theorem mem_erase {c : Block} {table : List Block} {address : Nat} :
    c ∈ erase table address ↔ c ∈ table ∧ c.address ≠ address := by
  simp [erase]

theorem Ordered.erase {table : List Block} (ordered : Ordered table) (address : Nat) :
    Ordered (Block.erase table address) :=
  List.Pairwise.filter _ ordered

theorem Ordered.apart {table : List Block} (ordered : Ordered table) {b c : Block}
    (memberB : b ∈ table) (memberC : c ∈ table) (distinct : b ≠ c) :
    b.stop ≤ c.address ∨ c.stop ≤ b.address := by
  induction table with
  | nil => cases memberB
  | cons d rest ih =>
    obtain ⟨first, tail⟩ := List.pairwise_cons.mp ordered
    rcases List.mem_cons.mp memberB with rfl | laterB <;>
      rcases List.mem_cons.mp memberC with rfl | laterC
    · exact absurd rfl distinct
    · exact .inl (first c laterC)
    · exact .inr (first b laterB)
    · exact ih tail laterB laterC

theorem Ordered.eq_of_covers {table : List Block} (ordered : Ordered table) {b c : Block} {i : Nat}
    (memberB : b ∈ table) (memberC : c ∈ table) (coversB : b.Covers i) (coversC : c.Covers i) :
    b = c := by
  by_contra distinct
  have apart := ordered.apart memberB memberC distinct
  obtain ⟨lowB, highB⟩ := coversB
  obtain ⟨lowC, highC⟩ := coversC
  omega

theorem Ordered.eq_of_address {table : List Block} (ordered : Ordered table)
    (filled : ∀ b ∈ table, 0 < b.size) {b c : Block} (memberB : b ∈ table) (memberC : c ∈ table)
    (same : b.address = c.address) : b = c := by
  have extentB := filled b memberB
  have extentC := filled c memberC
  refine ordered.eq_of_covers memberB memberC (i := b.address) ⟨le_rfl, ?_⟩ ⟨same.ge, ?_⟩ <;>
    simp only [stop] <;> omega

theorem sizeAt?_eq_some {table : List Block} (ordered : Ordered table)
    (filled : ∀ b ∈ table, 0 < b.size) (address size : Nat) :
    sizeAt? table address = some size ↔ ⟨address, size⟩ ∈ table := by
  rw [sizeAt?, Option.map_eq_some_iff]
  constructor
  · rintro ⟨b, found, rfl⟩
    have same : b.address = address := by simpa using List.find?_some found
    rw [← same]
    exact List.mem_of_find?_eq_some found
  · intro member
    obtain ⟨b, found⟩ : ∃ b, table.find? (·.address == address) = some b :=
      Option.isSome_iff_exists.mp (List.find?_isSome.mpr ⟨_, member, by simp⟩)
    have same : b.address = address := by simpa using List.find?_some found
    have equal := ordered.eq_of_address filled (List.mem_of_find?_eq_some found) member same
    exact ⟨b, found, by rw [equal]⟩

def covered (table : List Block) : Finset Nat :=
  table.foldr (fun b rest => Finset.Ico b.address b.stop ∪ rest) ∅

theorem mem_covered {table : List Block} {i : Nat} :
    i ∈ covered table ↔ ∃ b ∈ table, b.Covers i := by
  induction table with
  | nil => simp [covered]
  | cons d rest ih =>
    have unfolded : covered (d :: rest) = Finset.Ico d.address d.stop ∪ covered rest := rfl
    rw [unfolded, Finset.mem_union, ih, Finset.mem_Ico, List.exists_mem_cons_iff]
    rfl

theorem card_covered {table : List Block} (ordered : Ordered table) :
    (covered table).card = table.foldr (fun b total => b.size + total) 0 := by
  induction table with
  | nil => rfl
  | cons d rest ih =>
    obtain ⟨first, tail⟩ := List.pairwise_cons.mp ordered
    have unfolded : covered (d :: rest) = Finset.Ico d.address d.stop ∪ covered rest := rfl
    have apart : Disjoint (Finset.Ico d.address d.stop) (covered rest) := by
      refine Finset.disjoint_left.mpr fun i inHead inRest => ?_
      obtain ⟨b, member, covers⟩ := mem_covered.mp inRest
      have order := first b member
      have low := covers.1
      rw [Finset.mem_Ico] at inHead
      omega
    rw [unfolded, Finset.card_union_of_disjoint apart, ih tail, Nat.card_Ico, List.foldr_cons]
    simp only [stop]
    omega

end Block

namespace Heap

/-- The map and the table of a heap tell the same. -/
structure Sound (h : Heap) : Prop where
  mapSize : h.taken.size = h.size
  filled : ∀ b ∈ h.live, 0 < b.size
  inside : ∀ b ∈ h.live, b.stop ≤ h.size
  ordered : Block.Ordered h.live
  agrees : ∀ i, h.taken[i]? = some true ↔ ∃ b ∈ h.live, b.Covers i

def taking (h : Heap) (address size : Nat) : Heap :=
  ⟨h.bytes, Cells.overlay h.taken address (List.replicate size true),
    Block.insert ⟨address, size⟩ h.live⟩

def releasing (h : Heap) (address size : Nat) : Heap :=
  ⟨Cells.overlay h.bytes address (List.replicate size 0),
    Cells.overlay h.taken address (List.replicate size false), Block.erase h.live address⟩

def writing (h : Heap) (address : Nat) (data : List UInt8) : Heap :=
  ⟨Cells.overlay h.bytes address data, h.taken, h.live⟩

@[simp] theorem taking_size (h : Heap) (address size : Nat) : (h.taking address size).size = h.size := rfl

@[simp] theorem taking_bytes (h : Heap) (address size : Nat) : (h.taking address size).bytes = h.bytes := rfl

@[simp] theorem releasing_size (h : Heap) (address size : Nat) :
    (h.releasing address size).size = h.size := by simp [Heap.size, releasing]

@[simp] theorem writing_size (h : Heap) (address : Nat) (data : List UInt8) :
    (h.writing address data).size = h.size := by simp [Heap.size, writing]

@[simp] theorem writing_taken (h : Heap) (address : Nat) (data : List UInt8) :
    (h.writing address data).taken = h.taken := rfl

@[simp] theorem writing_live (h : Heap) (address : Nat) (data : List UInt8) :
    (h.writing address data).live = h.live := rfl

theorem empty_sound (size : Nat) : (empty size).Sound where
  mapSize := by simp [empty, Heap.size]
  filled := by simp [empty]
  inside := by simp [empty]
  ordered := List.Pairwise.nil
  agrees i := by simp [empty, Array.getElem?_replicate]

namespace Sound

variable {h : Heap} {address size : Nat}

theorem apart_of_free (sound : h.Sound) (positive : 0 < size)
    (free : FreeAt h.taken.toList address size) {c : Block} (member : c ∈ h.live) :
    c.stop ≤ address ∨ address + size ≤ c.address := by
  by_contra overlap
  have extent := sound.filled c member
  have shared : c.Covers (max c.address address) := by
    simp only [Block.Covers, Block.stop] at overlap ⊢
    omega
  have isTaken := (sound.agrees _).mpr ⟨c, member, shared⟩
  have isFree := free (max c.address address) (by omega) (by omega)
  rw [Array.getElem?_toList, isTaken] at isFree
  cases isFree

theorem fresh_of_free (sound : h.Sound) (positive : 0 < size)
    (free : FreeAt h.taken.toList address size) {c : Block} (member : c ∈ h.live) :
    c.address ≠ address := by
  intro same
  have extent := sound.filled c member
  have side := sound.apart_of_free positive free member
  simp only [Block.stop] at side
  omega

theorem mem_taking (sound : h.Sound) (positive : 0 < size)
    (free : FreeAt h.taken.toList address size) {c : Block} :
    c ∈ (h.taking address size).live ↔ c = ⟨address, size⟩ ∨ c ∈ h.live :=
  Block.mem_insert fun _ member => sound.fresh_of_free positive free member

theorem taking_taken (sound : h.Sound) (fits : address + size ≤ h.size) (i : Nat) :
    (h.taking address size).taken[i]? =
      if address ≤ i ∧ i < address + size then some true else h.taken[i]? :=
  Cells.overlay_replicate_getElem? true (sound.mapSize ▸ fits) i

theorem taking (sound : h.Sound) (positive : 0 < size) (fits : address + size ≤ h.size)
    (free : FreeAt h.taken.toList address size) : (h.taking address size).Sound := by
  have apart : ∀ c ∈ h.live, c.stop ≤ address ∨ address + size ≤ c.address :=
    fun c member => sound.apart_of_free positive free member
  have entered : ∀ c, c ∈ (h.taking address size).live ↔ c = ⟨address, size⟩ ∨ c ∈ h.live :=
    fun c => sound.mem_taking positive free
  refine ⟨?_, ?_, ?_, ?_, ?_⟩
  · simp [Heap.taking, sound.mapSize, Heap.size]
  · intro b member
    rcases (entered b).mp member with rfl | member
    · exact positive
    · exact sound.filled b member
  · intro b member
    rcases (entered b).mp member with rfl | member
    · exact fits
    · exact sound.inside b member
  · exact Block.insert_ordered sound.ordered apart positive sound.filled
  · intro i
    simp only [entered, or_and_right, exists_or, exists_eq_left, ← sound.agrees i]
    rw [sound.taking_taken fits, Block.Covers, Block.stop]
    split_ifs with within <;> simp [within]

theorem releasing_bytes (sound : h.Sound) (member : ⟨address, size⟩ ∈ h.live) (i : Nat) :
    (h.releasing address size).bytes[i]? =
      if address ≤ i ∧ i < address + size then some 0 else h.bytes[i]? :=
  Cells.overlay_replicate_getElem? 0 (sound.inside _ member) i

theorem releasing (sound : h.Sound) (member : ⟨address, size⟩ ∈ h.live) :
    (h.releasing address size).Sound := by
  have fits : address + size ≤ h.size := sound.inside _ member
  have others : ∀ c, c ∈ (h.releasing address size).live ↔ c ∈ h.live ∧ c.address ≠ address :=
    fun c => Block.mem_erase
  refine ⟨?_, ?_, ?_, ?_, ?_⟩
  · simp [Heap.releasing, sound.mapSize, Heap.size]
  · exact fun b kept => sound.filled b ((others b).mp kept).1
  · intro b kept
    rw [releasing_size]
    exact sound.inside b ((others b).mp kept).1
  · exact sound.ordered.erase address
  · intro i
    have bound : h.taken.size = h.size := sound.mapSize
    simp only [others]
    rw [Heap.releasing, Cells.overlay_replicate_getElem? false (bound ▸ fits)]
    constructor
    · intro isTaken
      split_ifs at isTaken with within
      · cases isTaken
      -- Only the address is compared in the table, but blocks with the same address are the same block.
      · obtain ⟨c, live, covers⟩ := (sound.agrees i).mp isTaken
        refine ⟨c, ⟨live, fun same => within ?_⟩, covers⟩
        have equal := sound.ordered.eq_of_address sound.filled live member same
        subst equal
        exact covers
    · rintro ⟨c, ⟨live, distinct⟩, covers⟩
      rw [if_neg, (sound.agrees i).mpr ⟨c, live, covers⟩]
      intro within
      have equal := sound.ordered.eq_of_covers live member covers within
      exact distinct (by rw [equal])

theorem writing (sound : h.Sound) (data : List UInt8) : (h.writing address data).Sound :=
  ⟨by rw [writing_size]; exact sound.mapSize, sound.filled,
    fun b member => by rw [writing_size]; exact sound.inside b member, sound.ordered, sound.agrees⟩

end Sound

theorem overwrite_inside {α : Type} (cells : Array α) (start : Nat) (xs : List α)
    (inside : start + xs.length ≤ cells.size) :
    Cells.overwrite cells start xs =
      if start + xs.length < Word.limit then .ok (Cells.overlay cells start xs)
      else .error .arithmetic := by
  by_cases words : start + xs.length < Word.limit
  · rw [Cells.overwrite, Word.add_of_lt words, if_pos words]
    exact if_pos inside
  · rw [Cells.overwrite, Word.add, if_neg words, if_neg words]
    rfl

theorem allocate_eq (h : Heap) {size : Nat} (positive : size ≠ 0) :
    allocate size h =
      match runEnd size 0 0 h.taken.toList with
      | none => .error (.noFreeMemory size h.largestFreeRun) h
      | some stop =>
          if stop < Word.limit then .ok (stop - size) (h.taking (stop - size) size)
          else .error (.trap .arithmetic) h := by
  rw [allocate, if_neg positive, Action.bind_ok (Action.get_run h)]
  cases found : runEnd size 0 0 h.taken.toList with
  | none => rfl
  | some stop =>
    obtain ⟨fits, inside, -⟩ := runEnd_least (Nat.pos_of_ne_zero positive) found
    have overwritten := overwrite_inside h.taken (stop - size) (List.replicate size true)
      (by rw [List.length_replicate, ← Array.length_toList]; omega)
    rw [List.length_replicate, Nat.sub_add_cancel fits] at overwritten
    simp only []
    rw [Action.bind_step (Word.sub_of_le fits), overwritten]
    split <;> rfl

theorem free_eq {h : Heap} (sound : h.Sound) (address : Nat) {size : Nat} (positive : size ≠ 0) :
    free address size h =
      if ⟨address, size⟩ ∈ h.live then
        if address + size < Word.limit then .ok () (h.releasing address size)
        else .error (.trap .arithmetic) h
      else .error (.invalidFree address size) h := by
  have table := Block.sizeAt?_eq_some sound.ordered sound.filled address size
  rw [free, if_neg positive, Action.bind_ok (Action.get_run h)]
  by_cases member : (⟨address, size⟩ : Block) ∈ h.live
  · have inside : address + size ≤ h.size := sound.inside _ member
    have map := overwrite_inside h.taken address (List.replicate size false)
      (by rw [List.length_replicate, sound.mapSize]; exact inside)
    have bytes := overwrite_inside h.bytes address (List.replicate size 0)
      (by rw [List.length_replicate]; exact inside)
    rw [List.length_replicate] at map bytes
    rw [if_pos (table.mpr member), if_pos member, map, bytes]
    split <;> rfl
  · rw [if_neg (fun same => member (table.mp same)), if_neg member]
    rfl

theorem checkRange_eq (h : Heap) (address length : Nat) :
    h.checkRange address length =
      if address + length ≤ h.size ∧ address + length < Word.limit then .ok ()
      else .error (.invalidAddress .heap (Word.saturatingAdd address length - 1) h.size) := by
  rw [checkRange, Word.add?]
  by_cases words : address + length < Word.limit
  · simp [words, checkRange.outside]
  · simp [words, checkRange.outside]

theorem checkRange_ok {h : Heap} {address length : Nat} :
    h.checkRange address length = .ok () ↔
      address + length ≤ h.size ∧ address + length < Word.limit := by
  rw [checkRange_eq]
  split <;> simp [*]

/-- Bytes are written where they exist, allocated or not. -/
theorem write_eq (h : Heap) (address : Nat) (data : List UInt8) :
    write address data h =
      match h.checkRange address data.length with
      | .ok _ => .ok () (h.writing address data)
      | .error fault => .error fault h := by
  rw [write, Action.bind_ok (Action.get_run h)]
  cases checked : h.checkRange address data.length with
  | error fault => rfl
  | ok passed =>
    obtain ⟨inside, words⟩ := checkRange_ok.mp checked
    have overwritten := overwrite_inside h.bytes address data inside
    rw [if_pos words] at overwritten
    rw [Action.bind_check rfl, Action.bind_step overwritten]
    rfl

theorem count_true_eq_card (taken : List Bool) :
    taken.count true = ((Finset.range taken.length).filter fun i => taken[i]? = some true).card := by
  induction taken using List.reverseRecOn with
  | nil => rfl
  | append_singleton front last ih =>
    have same : ((Finset.range front.length).filter fun i => (front ++ [last])[i]? = some true) =
        (Finset.range front.length).filter fun i => front[i]? = some true := by
      refine Finset.filter_congr fun i member => ?_
      rw [List.getElem?_append_left (Finset.mem_range.mp member)]
    rw [List.count_append, List.length_append, List.length_singleton, Finset.range_add_one,
      Finset.filter_insert, same, ih]
    cases last <;> simp

theorem Sound.allocatedBytes_eq_count {h : Heap} (sound : h.Sound) :
    h.allocatedBytes = h.taken.toList.count true := by
  have same : ((Finset.range h.taken.toList.length).filter fun i => h.taken.toList[i]? = some true) =
      Block.covered h.live := by
    ext i
    rw [Finset.mem_filter, Finset.mem_range, Array.getElem?_toList, sound.agrees i,
      Block.mem_covered, and_iff_right_iff_imp, Array.length_toList, sound.mapSize]
    rintro ⟨b, member, covers⟩
    have inside := sound.inside b member
    have high := covers.2
    omega
  rw [count_true_eq_card, same, Block.card_covered sound.ordered, allocatedBytes]

/-- The heaps that calls lead to, from an empty one and in any order. A call that fails counts with
what it leaves behind. -/
inductive Reachable (size : Nat) : Heap → Prop
  | empty : Reachable size (.empty size)
  | allocate {h : Heap} (n : Nat) (before : Reachable size h) :
      Reachable size (Action.after (Heap.allocate n) h)
  | free {h : Heap} (address n : Nat) (before : Reachable size h) :
      Reachable size (Action.after (Heap.free address n) h)
  | write {h : Heap} (address : Nat) (data : List UInt8) (before : Reachable size h) :
      Reachable size (Action.after (Heap.write address data) h)

theorem Sound.after_allocate {h : Heap} (sound : h.Sound) (n : Nat) :
    (Action.after (allocate n) h).Sound ∧ (Action.after (allocate n) h).size = h.size := by
  by_cases positive : n = 0
  · subst positive
    exact ⟨sound, rfl⟩
  have run := allocate_eq h positive
  cases found : runEnd n 0 0 h.taken.toList with
  | none =>
    rw [found] at run
    rw [Action.after_error run]
    exact ⟨sound, rfl⟩
  | some stop =>
    have positive := Nat.pos_of_ne_zero positive
    obtain ⟨fits, inside, free, -⟩ := runEnd_least positive found
    rw [Array.length_toList, sound.mapSize] at inside
    rw [found] at run
    by_cases words : stop < Word.limit
    · simp only [words, if_true] at run
      rw [Action.after_ok run]
      exact ⟨sound.taking positive (by omega) free, rfl⟩
    · simp only [words, if_false] at run
      rw [Action.after_error run]
      exact ⟨sound, rfl⟩

theorem Sound.after_free {h : Heap} (sound : h.Sound) (address n : Nat) :
    (Action.after (free address n) h).Sound ∧ (Action.after (free address n) h).size = h.size := by
  by_cases positive : n = 0
  · subst positive
    exact ⟨sound, rfl⟩
  have run := free_eq sound address positive
  by_cases member : (⟨address, n⟩ : Block) ∈ h.live
  · by_cases words : address + n < Word.limit
    · rw [if_pos member, if_pos words] at run
      rw [Action.after_ok run]
      exact ⟨sound.releasing member, releasing_size h address n⟩
    · rw [if_pos member, if_neg words] at run
      rw [Action.after_error run]
      exact ⟨sound, rfl⟩
  · rw [if_neg member] at run
    rw [Action.after_error run]
    exact ⟨sound, rfl⟩

theorem Sound.after_write {h : Heap} (sound : h.Sound) (address : Nat) (data : List UInt8) :
    (Action.after (write address data) h).Sound ∧
      (Action.after (write address data) h).size = h.size := by
  have run := write_eq h address data
  cases checked : h.checkRange address data.length with
  | ok passed =>
    rw [checked] at run
    rw [Action.after_ok run]
    exact ⟨sound.writing data, writing_size h address data⟩
  | error fault =>
    rw [checked] at run
    rw [Action.after_error run]
    exact ⟨sound, rfl⟩

theorem Reachable.sound {size : Nat} {h : Heap} (reached : Reachable size h) :
    h.Sound ∧ h.size = size := by
  induction reached with
  | empty => exact ⟨empty_sound size, by simp [Heap.empty, Heap.size]⟩
  | allocate n before ih =>
    obtain ⟨sound, same⟩ := ih
    obtain ⟨sound', same'⟩ := sound.after_allocate n
    exact ⟨sound', same'.trans same⟩
  | free address n before ih =>
    obtain ⟨sound, same⟩ := ih
    obtain ⟨sound', same'⟩ := sound.after_free address n
    exact ⟨sound', same'.trans same⟩
  | write address data before ih =>
    obtain ⟨sound, same⟩ := ih
    obtain ⟨sound', same'⟩ := sound.after_write address data
    exact ⟨sound', same'.trans same⟩

/-- The live blocks of every heap that calls lead to are not empty, lie in the arena without
overlapping and are listed in the order of their addresses. The map takes exactly the bytes of the
blocks, each of one block only, so that the sizes add up to the number of bytes taken. -/
theorem live_blocks_partition_taken_bytes {size : Nat} {h : Heap} (reached : Reachable size h) :
    (∀ b ∈ h.live, 0 < b.size ∧ b.address + b.size ≤ size) ∧
    (∀ b ∈ h.live, ∀ c ∈ h.live, b ≠ c → ∀ i, ¬(b.Covers i ∧ c.Covers i)) ∧
    h.taken.size = size ∧
    (∀ i, h.taken[i]? = some true ↔ ∃ b ∈ h.live, b.Covers i) ∧
    (∀ i, h.taken[i]? = some true ↔ ∃! b, b ∈ h.live ∧ b.Covers i) ∧
    (h.live.Pairwise fun b c => b.address < c.address ∧ b.address + b.size ≤ c.address) ∧
    h.allocatedBytes = h.taken.toList.count true ∧ h.allocatedBytes ≤ size := by
  obtain ⟨sound, rfl⟩ := reached.sound
  have once : ∀ {b c : Block} {i : Nat}, b ∈ h.live → c ∈ h.live → b.Covers i → c.Covers i → b = c :=
    sound.ordered.eq_of_covers
  have sorted : h.live.Pairwise fun b c => b.address < c.address ∧ b.address + b.size ≤ c.address := by
    refine sound.ordered.imp_of_mem fun {b c} memberB _ order => ?_
    have extent := sound.filled b memberB
    simp only [Block.stop] at order
    omega
  have total := sound.allocatedBytes_eq_count
  refine ⟨fun b member => ⟨sound.filled b member, sound.inside b member⟩, ?_, sound.mapSize,
    sound.agrees, ?_, sorted, total, ?_⟩
  · rintro b memberB c memberC distinct i ⟨coversB, coversC⟩
    exact distinct (once memberB memberC coversB coversC)
  · intro i
    rw [sound.agrees i]
    constructor
    · rintro ⟨b, member, covers⟩
      exact ⟨b, ⟨member, covers⟩, fun c other => once other.1 member other.2 covers⟩
    · rintro ⟨b, ⟨member, covers⟩, -⟩
      exact ⟨b, member, covers⟩
  · rw [total, ← sound.mapSize, ← Array.length_toList]
    exact List.count_le_length

/-- After two requests, a refused release and a release, the one block left is the only one taken. -/
theorem live_blocks_partition_after_release :
    ∃ h, Reachable 16 h ∧ h.live = [⟨8, 4⟩] ∧ h.allocatedBytes = h.taken.toList.count true ∧
      (∀ i, h.taken[i]? = some true ↔ ∃ b ∈ h.live, b.Covers i) := by
  have reached : Reachable 16 _ := .free 0 8 (.free 0 4 (.allocate 4 (.allocate 8 .empty)))
  obtain ⟨-, -, -, agrees, -, -, total, -⟩ := live_blocks_partition_taken_bytes reached
  exact ⟨_, reached, by decide, total, agrees⟩

end Heap
end StackMachine
