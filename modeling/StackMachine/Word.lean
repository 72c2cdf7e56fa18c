/-! Sizes, positions and addresses are 64-bit words. They are kept as natural numbers, and every
step that could leave the word range goes through this file: `add`, `sub` and `mul` stop with a
trap, `add?` and `mul?` give the step back to the caller, `saturatingAdd` stays at the last word.
Cells are read and written by position under the same rule. Nothing here says which operations
never trap; that is a property of the machine. -/
namespace StackMachine

/-- A step that the word range or the bounds of a region do not allow. -/
inductive Trap where
  | arithmetic
  | bounds
  deriving DecidableEq, Repr, Inhabited

namespace Word

def limit : Nat := 0x10000000000000000

def last : Nat := limit - 1

def add (a b : Nat) : Except Trap Nat :=
  if a + b < limit then .ok (a + b) else .error .arithmetic

def sub (a b : Nat) : Except Trap Nat :=
  if b ≤ a then .ok (a - b) else .error .arithmetic

def mul (a b : Nat) : Except Trap Nat :=
  if a * b < limit then .ok (a * b) else .error .arithmetic

def add? (a b : Nat) : Option Nat :=
  if a + b < limit then some (a + b) else none

def mul? (a b : Nat) : Option Nat :=
  if a * b < limit then some (a * b) else none

def saturatingAdd (a b : Nat) : Nat := min (a + b) last

theorem add_of_lt {a b : Nat} (fits : a + b < limit) : add a b = .ok (a + b) := by
  simp [add, fits]

theorem sub_of_le {a b : Nat} (fits : b ≤ a) : sub a b = .ok (a - b) := by
  simp [sub, fits]

theorem mul_of_lt {a b : Nat} (fits : a * b < limit) : mul a b = .ok (a * b) := by
  simp [mul, fits]

end Word

namespace Cells

def read {α : Type} (cells : Array α) (i : Nat) : Except Trap α :=
  match cells[i]? with
  | some x => .ok x
  | none => .error .bounds

def write {α : Type} (cells : Array α) (i : Nat) (x : α) : Except Trap (Array α) :=
  if i < cells.size then .ok (cells.setIfInBounds i x) else .error .bounds

/-- Write consecutive cells; what falls outside is dropped. -/
def overlay {α : Type} (cells : Array α) (start : Nat) : List α → Array α
  | [] => cells
  | x :: rest => overlay (cells.setIfInBounds start x) (start + 1) rest

/-- Write consecutive cells, all of which must exist. -/
def overwrite {α : Type} (cells : Array α) (start : Nat) (xs : List α) :
    Except Trap (Array α) := do
  let stop ← Word.add start xs.length
  if stop ≤ cells.size then .ok (overlay cells start xs) else .error .bounds

def slice {α : Type} (cells : Array α) (start count : Nat) : Except Trap (List α) := do
  let stop ← Word.add start count
  if stop ≤ cells.size then .ok (cells.extract start stop).toList else .error .bounds

@[simp] theorem overlay_size {α : Type} (cells : Array α) (start : Nat) (xs : List α) :
    (overlay cells start xs).size = cells.size := by
  induction xs generalizing cells start with
  | nil => rfl
  | cons x rest ih => simp [overlay, ih]

theorem overlay_getElem? {α : Type} (cells : Array α) (start : Nat) (xs : List α) (i : Nat) :
    (overlay cells start xs)[i]? =
      if start ≤ i ∧ i < start + xs.length ∧ i < cells.size then xs[i - start]? else cells[i]? := by
  induction xs generalizing cells start with
  | nil => simp [overlay]; omega
  | cons x rest ih =>
      rw [overlay, ih]
      simp only [Array.size_setIfInBounds, Array.getElem?_setIfInBounds, List.length_cons]
      by_cases here : start = i
      · subst here
        rw [if_neg (by omega)]
        by_cases inside : start < cells.size <;> simp [inside]
      · by_cases later : start + 1 ≤ i ∧ i < start + 1 + rest.length ∧ i < cells.size
        · have shift : i - start = (i - (start + 1)) + 1 := by omega
          rw [if_pos later, if_pos (by omega), shift, List.getElem?_cons_succ]
        · rw [if_neg later, if_neg here, if_neg (by omega)]

end Cells
end StackMachine
