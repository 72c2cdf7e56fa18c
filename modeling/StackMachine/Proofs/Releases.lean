import Mathlib
import StackMachine.Proofs.Ledger

/-! Releases in any order. `Heap.without` is a heap less a set of its blocks, written down without any
order: the table loses the blocks, and their bytes are free and zero. Blocks of one table do not overlap, and
a release keeps the other blocks apart as they were, so giving up one block more is taking one block more out
of the set. Whichever way the blocks are lined up, the calls therefore all succeed and end in the same heap. -/
namespace StackMachine

instance (b : Block) (i : Nat) : Decidable (b.Covers i) := inferInstanceAs (Decidable (_ ∧ _))

namespace Heap

variable {h : Heap} {b : Block} {gone : Finset Block} {order : List Block} {i size : Nat}

/-- Give up blocks one by one, up to the first that is refused. -/
def freeEach : List Block → Action Heap Unit
  | [] => return ()
  | b :: rest => do
      free b.address b.size
      freeEach rest

def blanked {α : Type} (cells : Array α) (gone : Finset Block) (x : α) : Array α :=
  cells.mapIdx fun i y => if ∃ b ∈ gone, b.Covers i then x else y

def without (h : Heap) (gone : Finset Block) : Heap :=
  ⟨blanked h.bytes gone 0, blanked h.taken gone false, h.live.filter (· ∉ gone)⟩

theorem blanked_getElem? {α : Type} {cells : Array α} {x : α}
    (inside : ∀ b ∈ gone, b.stop ≤ cells.size) (i : Nat) :
    (blanked cells gone x)[i]? = if ∃ b ∈ gone, b.Covers i then some x else cells[i]? := by
  rw [blanked, Array.getElem?_mapIdx]
  split_ifs with covered
  · obtain ⟨b, member, low, high⟩ := covered
    have short : i < cells.size := high.trans_le (inside b member)
    simp [Array.getElem?_eq_getElem short]
  · simp

theorem blanked_empty {α : Type} (cells : Array α) (x : α) : blanked cells ∅ x = cells := by
  ext i <;> simp [blanked]

theorem blanked_insert {α : Type} {cells : Array α} (x : α) (inside : b.stop ≤ cells.size) :
    blanked (Cells.overlay cells b.address (List.replicate b.size x)) gone x =
      blanked cells (insert b gone) x := by
  refine Array.ext_getElem? fun i => ?_
  simp only [blanked, Array.getElem?_mapIdx, Cells.overlay_replicate_getElem? x inside,
    Finset.exists_mem_insert]
  by_cases here : b.Covers i
  · have short : i < cells.size := here.2.trans_le inside
    have range : b.address ≤ i ∧ i < b.address + b.size := here
    simp [here, range, Array.getElem?_eq_getElem short]
  · have range : ¬(b.address ≤ i ∧ i < b.address + b.size) := here
    rw [if_neg range]
    simp only [here, false_or]

theorem without_empty (h : Heap) : h.without ∅ = h := by
  simp [without, blanked_empty]

namespace Sound

theorem releasing_without (sound : h.Sound) (member : b ∈ h.live) :
    (h.releasing b.address b.size).without gone = h.without (insert b gone) := by
  have inside : b.stop ≤ h.size := sound.inside b member
  have table : (Block.erase h.live b.address).filter (· ∉ gone) =
      h.live.filter (· ∉ insert b gone) := by
    rw [Block.erase, List.filter_filter]
    refine List.filter_congr fun c live => ?_
    have named : c.address = b.address ↔ c = b :=
      ⟨sound.ordered.eq_of_address sound.filled live member, congrArg Block.address⟩
    rw [Bool.eq_iff_iff]
    simp [named, and_comm]
  simp only [without, Heap.releasing, blanked_insert 0 inside, blanked_insert false (sound.mapSize ▸ inside),
    table]

theorem free_live (sound : h.Sound) (words : h.size < Word.limit) (member : b ∈ h.live) :
    free b.address b.size h = .ok () (h.releasing b.address b.size) := by
  have positive := sound.filled b member
  rw [free_run sound words, release, if_neg positive.ne', if_pos member]
  rfl

theorem freeEach_eq (sound : h.Sound) (words : h.size < Word.limit) (distinct : order.Nodup)
    (live : ∀ b ∈ order, b ∈ h.live) : freeEach order h = .ok () (h.without order.toFinset) := by
  induction order generalizing h with
  | nil => rw [List.toFinset_nil, without_empty, freeEach, Action.pure_run]
  | cons b rest ih =>
    obtain ⟨other, distinct⟩ := List.nodup_cons.mp distinct
    have member := live b List.mem_cons_self
    -- A block that comes later is another one, so the table still has it after the first release.
    have later : ∀ c ∈ rest, c ∈ (h.releasing b.address b.size).live := by
      intro c behind
      have listed := live c (List.mem_cons_of_mem b behind)
      refine Block.mem_erase.mpr ⟨listed, fun same => other ?_⟩
      rwa [← sound.ordered.eq_of_address sound.filled listed member same]
    rw [freeEach, Action.bind_ok (sound.free_live words member), List.toFinset_cons,
      ← sound.releasing_without member]
    exact ih (sound.releasing member) ((releasing_size ..).trans_lt words) distinct later

theorem not_covered (sound : h.Sound) (all : ∀ b ∈ h.live, b ∈ gone)
    (outside : ¬∃ b ∈ gone, b.Covers i) : h.taken[i]? ≠ some true := by
  intro taken
  obtain ⟨b, member, covers⟩ := (sound.agrees i).mp taken
  exact outside ⟨b, all b member, covers⟩

end Sound

/-- Releases commute. Take any set of the live blocks of a heap. There is one heap in which the releases of
all of them end, each of them a success, in whatever order they are called: its table is the old one less
those blocks, their bytes are free and zero, and all else is as it was. When all blocks are in the set, no
byte is taken any more. -/
theorem releases_commute (words : size < Word.limit) (reached : Reachable size h) (gone : Finset Block)
    (live : ∀ b ∈ gone, b ∈ h.live) :
    ∃ final : Heap,
      (∀ order : List Block, order.Nodup → order.toFinset = gone → freeEach order h = .ok () final) ∧
      final.live = h.live.filter (· ∉ gone) ∧
      (∀ i, final.taken[i]? = if ∃ b ∈ gone, b.Covers i then some false else h.taken[i]?) ∧
      (∀ i, final.bytes[i]? = if ∃ b ∈ gone, b.Covers i then some 0 else h.bytes[i]?) ∧
      ((∀ b ∈ h.live, b ∈ gone) →
        final.taken = Array.replicate size false ∧ final.allocatedBytes = 0) := by
  obtain ⟨sound, rfl⟩ := reached.sound
  have inside : ∀ b ∈ gone, b.stop ≤ h.size := fun b member => sound.inside b (live b member)
  have map : ∀ b ∈ gone, b.stop ≤ h.taken.size := sound.mapSize ▸ inside
  refine ⟨h.without gone, ?_, rfl, blanked_getElem? map, blanked_getElem? inside, fun all => ⟨?_, ?_⟩⟩
  · rintro order distinct rfl
    exact sound.freeEach_eq words distinct fun b member => live b (List.mem_toFinset.mpr member)
  · refine Array.ext_getElem? fun i => ?_
    rw [without, blanked_getElem? map, Array.getElem?_replicate, ← sound.mapSize]
    split_ifs with covered short short
    · rfl
    · obtain ⟨b, member, low, high⟩ := covered
      exact absurd (high.trans_le (map b member)) short
    · have free := sound.not_covered all covered
      rw [Array.getElem?_eq_getElem short] at free ⊢
      simpa using free
    · exact Array.getElem?_eq_none (Nat.not_lt.mp short)
  · have nothing : h.live.filter (· ∉ gone) = [] := List.filter_eq_nil_iff.mpr (by simpa using all)
    rw [allocatedBytes, without, nothing]
    rfl

/-- Of three blocks the outer two are given up in either order; the middle one keeps its bytes. -/
theorem outer_releases_commute :
    let h := Action.after (write 3 [7, 8, 9, 6, 5, 4])
      (Action.after (allocate 4) (Action.after (allocate 3) (Action.after (allocate 4) (empty 12))))
    ∃ final, freeEach [⟨0, 4⟩, ⟨7, 4⟩] h = .ok () final ∧ freeEach [⟨7, 4⟩, ⟨0, 4⟩] h = .ok () final ∧
      h.live = [⟨0, 4⟩, ⟨4, 3⟩, ⟨7, 4⟩] ∧ final.live = [⟨4, 3⟩] ∧ h.bytes[3]? = some 7 ∧
      final.bytes[3]? = some 0 ∧ final.bytes[4]? = some 8 ∧ final.taken[4]? = some true := by
  intro h
  have reached : Reachable 12 h := .write 3 _ (.allocate 4 (.allocate 3 (.allocate 4 .empty)))
  obtain ⟨final, ends, table, map, bytes, -⟩ := releases_commute (by decide) reached
    {⟨0, 4⟩, ⟨7, 4⟩} (by decide +kernel)
  refine ⟨final, ends _ (by decide) (by decide), ends _ (by decide) (by decide), by decide +kernel, ?_,
    by decide +kernel, ?_, ?_, ?_⟩
  · rw [table]
    decide +kernel
  · rw [bytes]
    decide +kernel
  · rw [bytes]
    decide +kernel
  · rw [map]
    decide +kernel

end Heap
end StackMachine
