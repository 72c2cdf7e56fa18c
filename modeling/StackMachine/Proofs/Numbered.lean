import Mathlib

/-! Lists in the order of a number. Positions that are counted on grow from entry to entry, and two lists
whose numbers grow are equal as soon as they have the same members, since each entry has its place by its
number. -/
namespace StackMachine

variable {α : Type} {entries : List Nat} {i k : Nat}

theorem zipIdx_increasing (xs : List α) (n : Nat) : (xs.zipIdx n).Pairwise fun a b => a.2 < b.2 := by
  rw [← List.pairwise_map (f := Prod.snd) (R := (· < ·)), List.zipIdx_map_snd]
  exact List.pairwise_lt_range'

theorem eq_of_increasing (key : α → Nat) {xs ys : List α} (first : xs.Pairwise fun a b => key a < key b)
    (second : ys.Pairwise fun a b => key a < key b) (same : ∀ a, a ∈ xs ↔ a ∈ ys) : xs = ys := by
  have antisymmetric : Std.Antisymm fun a b : α => key a < key b :=
    ⟨fun _ _ order back => absurd order back.asymm⟩
  have irreflexive : Std.Irrefl fun a b : α => key a < key b := ⟨fun _ => lt_irrefl _⟩
  exact first.eq_of_mem_iff second same

end StackMachine
