import Mathlib
import StackMachine.Heap

/-! Runs of free bytes in the map of a heap. Two scans of the map count the free bytes behind them: one stops
as soon as they are as many as are asked for, the other keeps the greatest count. Both are read off one
function, `freeBehind`, which counts the free bytes right before a position. So first fit stops at the first
position with enough free bytes behind it, that is at the least address where the bytes asked for exist and
are free, and it finds one exactly if the longest run is long enough. -/
namespace StackMachine.Heap

variable {front rest taken : List Bool} {address size n stop : Nat}

/-- The bytes from an address on exist and are free. -/
def FreeAt (taken : List Bool) (address size : Nat) : Prop :=
  ∀ i, address ≤ i → i < address + size → taken[i]? = some false

def freeBehind (front : List Bool) : Nat := (front.rtakeWhile (!·)).length

@[simp] theorem freeBehind_nil : freeBehind [] = 0 := by simp [freeBehind]

theorem freeBehind_snoc (front : List Bool) (taken : Bool) :
    freeBehind (front ++ [taken]) = if taken then 0 else freeBehind front + 1 := by
  cases taken <;> simp [freeBehind]

theorem freeAt_snoc (short : n ≤ front.length) (bit : Bool) :
    FreeAt (front ++ [bit]) (front.length - n) (n + 1) ↔
      bit = false ∧ FreeAt front (front.length - n) n := by
  constructor
  · intro free
    refine ⟨by simpa using free front.length (by omega) (by omega), fun i low high => ?_⟩
    rw [← free i low (by omega), List.getElem?_append_left (by omega)]
  · rintro ⟨rfl, free⟩ i low high
    obtain earlier | last : i < front.length ∨ i = front.length := by omega
    · rw [List.getElem?_append_left earlier]
      exact free i low (by omega)
    · simp [last]

theorem le_freeBehind_iff :
    n ≤ freeBehind front ↔ n ≤ front.length ∧ FreeAt front (front.length - n) n := by
  induction front using List.reverseRecOn generalizing n with
  | nil =>
    have nothing : FreeAt [] 0 0 := fun i low high => by omega
    cases n <;> simp [nothing]
  | append_singleton front bit ih =>
    cases n with
    | zero => exact ⟨fun _ => ⟨Nat.zero_le _, fun i low high => by omega⟩, fun _ => Nat.zero_le _⟩
    | succ n =>
      rw [freeBehind_snoc, List.length_append, List.length_singleton, Nat.add_sub_add_right]
      by_cases short : n ≤ front.length
      · rw [freeAt_snoc short]
        cases bit <;> simp [ih, short]
      · have counted : ¬n ≤ freeBehind front := fun enough => short (ih.mp enough).1
        cases bit <;> simp [short, counted]

theorem freeAt_iff (positive : 0 < size) :
    FreeAt taken address size ↔
      address + size ≤ taken.length ∧ size ≤ freeBehind (taken.take (address + size)) := by
  have exists_of_free (free : FreeAt taken address size) : address + size ≤ taken.length := by
    have last := free (address + size - 1) (by omega) (by omega)
    have inside := (List.getElem?_eq_some_iff.mp last).1
    omega
  rw [le_freeBehind_iff, List.length_take]
  constructor
  · intro free
    have inside := exists_of_free free
    rw [Nat.min_eq_left inside, Nat.add_sub_cancel]
    refine ⟨inside, Nat.le_add_left .., fun i low high => ?_⟩
    rw [List.getElem?_take_of_lt high]
    exact free i low high
  · rintro ⟨inside, -, free⟩ i low high
    rw [Nat.min_eq_left inside, Nat.add_sub_cancel] at free
    rw [← free i low high, List.getElem?_take_of_lt high]

/-! The two scans, with `front` behind them. -/

theorem runEnd_cons (size position run : Nat) (taken : Bool) (rest : List Bool) :
    runEnd size position run (taken :: rest) =
      if (if taken then 0 else run + 1) = size then some (position + 1)
      else runEnd size (position + 1) (if taken then 0 else run + 1) rest := rfl

theorem runEnd_eq_find? (front rest : List Bool) (short : freeBehind front < size) :
    runEnd size front.length (freeBehind front) rest =
      (List.range' (front.length + 1) rest.length).find?
        fun stop => size ≤ freeBehind ((front ++ rest).take stop) := by
  induction rest generalizing front with
  | nil => rfl
  | cons bit rest ih =>
    have longer : (front ++ [bit]).length = front.length + 1 := by simp
    -- Counts grow by one, so that the size is met before it is passed.
    have next : freeBehind (front ++ [bit]) ≤ size := by
      rw [freeBehind_snoc]
      split <;> omega
    rw [runEnd_cons, ← freeBehind_snoc, List.length_cons, List.range'_succ,
      List.append_cons front bit rest]
    by_cases full : freeBehind (front ++ [bit]) = size
    · have stops : size ≤ freeBehind ((front ++ [bit] ++ rest).take (front.length + 1)) := by
        rw [List.take_left' longer, full]
      rw [if_pos full, List.find?_cons_of_pos (by simpa only [decide_eq_true_eq] using stops)]
    · have stillShort : freeBehind (front ++ [bit]) < size := by omega
      have passes : ¬size ≤ freeBehind ((front ++ [bit] ++ rest).take (front.length + 1)) := by
        rw [List.take_left' longer]
        exact Nat.not_le.mpr stillShort
      rw [if_neg full, List.find?_cons_of_neg (by simpa only [decide_eq_true_eq] using passes),
        ← longer, ih _ stillShort]

theorem le_longestRun_iff (front rest : List Bool) {best : Nat} :
    n ≤ longestRun best (freeBehind front) rest ↔
      n ≤ best ∨ ∃ stop ∈ List.range' (front.length + 1) rest.length,
        n ≤ freeBehind ((front ++ rest).take stop) := by
  induction rest generalizing front best with
  | nil => simp [longestRun]
  | cons bit rest ih =>
    have longer : (front ++ [bit]).length = front.length + 1 := by simp
    have step : longestRun best (freeBehind front) (bit :: rest) =
        longestRun (max best (freeBehind (front ++ [bit]))) (freeBehind (front ++ [bit])) rest := by
      rw [freeBehind_snoc, longestRun]
    rw [step, ih, List.length_cons, List.range'_succ, List.exists_mem_cons_iff,
      List.append_cons front bit rest, List.take_left' longer, le_max_iff, or_assoc, longer]

theorem freeAt_of_stop (positive : 0 < size) (inside : stop ≤ taken.length)
    (enough : size ≤ freeBehind (taken.take stop)) :
    size ≤ stop ∧ FreeAt taken (stop - size) size := by
  have fits : size ≤ stop := by
    have counted := (le_freeBehind_iff.mp enough).1
    rw [List.length_take] at counted
    omega
  refine ⟨fits, (freeAt_iff positive).mpr ?_⟩
  rw [Nat.sub_add_cancel fits]
  exact ⟨inside, enough⟩

theorem exists_stop_iff (positive : 0 < size) :
    (∃ stop ∈ List.range' 1 taken.length, size ≤ freeBehind (taken.take stop)) ↔
      ∃ address, FreeAt taken address size := by
  constructor
  · rintro ⟨stop, position, enough⟩
    rw [List.mem_range'_1] at position
    exact ⟨stop - size, (freeAt_of_stop positive (by omega) enough).2⟩
  · rintro ⟨address, free⟩
    obtain ⟨inside, enough⟩ := (freeAt_iff positive).mp free
    exact ⟨address + size, List.mem_range'_1.mpr (by omega), enough⟩

theorem le_longestRun (positive : 0 < n) :
    n ≤ longestRun 0 0 taken ↔ ∃ address, FreeAt taken address n := by
  have scan : n ≤ longestRun 0 0 taken ↔ _ := le_longestRun_iff [] taken
  rw [scan, ← exists_stop_iff positive]
  simp [Nat.pos_iff_ne_zero.mp positive]

theorem runEnd_eq_none_iff (positive : 0 < size) :
    runEnd size 0 0 taken = none ↔ ∀ address, ¬FreeAt taken address size := by
  have scan : runEnd size 0 0 taken = _ := runEnd_eq_find? [] taken positive
  rw [scan, List.find?_eq_none, ← not_exists, ← exists_stop_iff positive]
  simp

/-- First fit takes the least address where enough bytes are free. -/
theorem runEnd_least (positive : 0 < size) (found : runEnd size 0 0 taken = some stop) :
    size ≤ stop ∧ stop ≤ taken.length ∧
      IsLeast {address | FreeAt taken address size} (stop - size) := by
  have scan : runEnd size 0 0 taken = _ := runEnd_eq_find? [] taken positive
  rw [found, eq_comm, List.find?_range'_eq_some] at scan
  obtain ⟨enough, position, earlier⟩ := scan
  have inside : stop ≤ taken.length := by
    rw [List.mem_range'_1, List.length_nil] at position
    omega
  obtain ⟨fits, free⟩ := freeAt_of_stop positive inside (of_decide_eq_true enough)
  refine ⟨fits, inside, free, fun address other => ?_⟩
  by_contra before
  obtain ⟨-, enough⟩ := (freeAt_iff positive).mp other
  have refused := earlier (address + size) (by rw [List.length_nil]; omega) (by omega)
  simp [enough] at refused

/-- First fit begins at the start of the arena or right behind a byte that is taken. -/
theorem runEnd_starts (positive : 0 < size) (found : runEnd size 0 0 taken = some stop) :
    stop = size ∨ taken[stop - size - 1]? = some true := by
  obtain ⟨fits, inside, free, least⟩ := runEnd_least positive found
  by_contra starts
  obtain ⟨later, before⟩ := not_or.mp starts
  have present : stop - size - 1 < taken.length := by omega
  -- If the byte before the run were free, a run of the same size would begin there.
  have earlier : FreeAt taken (stop - size - 1) size := by
    intro i low high
    obtain rfl | inner : i = stop - size - 1 ∨ stop - size ≤ i := by omega
    · rw [List.getElem?_eq_getElem present] at before ⊢
      simpa using before
    · exact free i inner (by omega)
  have minimal := least earlier
  omega

end StackMachine.Heap
