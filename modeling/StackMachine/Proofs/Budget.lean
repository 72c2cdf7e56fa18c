import Mathlib
import StackMachine.Proofs.Recording

/-! Histories stay within their budget. Whatever is pushed, the amount in use is the size of what is
kept, and a snapshot is refused exactly if it would take that amount over the limit. A recording pushes
the states of a run in turn and stops at the first refusal, so it keeps the longest first part of them
that fits; a larger budget keeps the same states and perhaps more, and no budget changes the outcome of
a recording that is not cut short. -/
namespace StackMachine

def totalSize (snapshots : List Snapshot) : Nat := (snapshots.map Snapshot.size).sum

@[simp] theorem totalSize_nil : totalSize [] = 0 := rfl

@[simp] theorem totalSize_cons (s : Snapshot) (rest : List Snapshot) :
    totalSize (s :: rest) = s.size + totalSize rest := by
  simp [totalSize]

@[simp] theorem totalSize_append (front back : List Snapshot) :
    totalSize (front ++ back) = totalSize front + totalSize back := by
  simp [totalSize]

namespace History

variable {s : Snapshot} {h kept : History}

def pushAll (h : History) (pushed : List Snapshot) : History :=
  pushed.foldl (fun h s => Action.after (push s) h) h

theorem pushAll_cons (h : History) (s : Snapshot) (rest : List Snapshot) :
    pushAll h (s :: rest) = pushAll (Action.after (push s) h) rest := rfl

def accepts (h : History) (s : Snapshot) : Bool :=
  match push s h with
  | .ok _ _ => true
  | .error _ _ => false

structure Balanced (h : History) : Prop where
  used : h.used = totalSize h.snapshots.toList
  within : h.used ≤ h.limit

theorem push_room (pushed : push s h = .ok () kept) : h.used + s.size ≤ h.limit := by
  rw [push_eq] at pushed
  split at pushed
  case isTrue => cases pushed
  case isFalse room => exact Nat.le_of_not_lt room

theorem accepts_iff : accepts h s ↔ h.used + s.size ≤ h.limit := by
  rw [accepts, push_eq]
  by_cases full : h.limit < h.used + s.size
  · simp [full]
  · simp [full, Nat.le_of_not_lt full]

theorem not_accepts_iff : accepts h s = false ↔ h.limit < h.used + s.size := by
  rw [← Bool.not_eq_true, accepts_iff, Nat.not_le]

theorem after_push (s : Snapshot) (h : History) :
    Action.after (push s) h =
      if accepts h s then { h with snapshots := h.snapshots.push s, used := h.used + s.size } else h := by
  cases pushed : push s h with
  | ok value kept => rw [Action.after_ok pushed, push_kept pushed, accepts, pushed]; rfl
  | error error kept => rw [Action.after_error pushed, (push_refused pushed).1, accepts, pushed]; rfl

theorem Balanced.after_push (balanced : Balanced h) (s : Snapshot) :
    Balanced (Action.after (push s) h) := by
  rw [History.after_push]
  split
  case isTrue accepted =>
    refine ⟨?_, accepts_iff.mp accepted⟩
    simp [balanced.used]
  case isFalse => exact balanced

theorem Balanced.pushAll (balanced : Balanced h) (pushed : List Snapshot) :
    Balanced (pushAll h pushed) := by
  induction pushed generalizing h with
  | nil => exact balanced
  | cons s rest ih => exact ih (balanced.after_push s)

theorem Balanced.empty (limit : Nat) : Balanced (.empty limit) := ⟨rfl, Nat.zero_le limit⟩

theorem pushAll_limit (h : History) (pushed : List Snapshot) : (pushAll h pushed).limit = h.limit := by
  induction pushed generalizing h with
  | nil => rfl
  | cons s rest ih =>
    rw [pushAll_cons, ih, after_push]
    split <;> rfl

/-- What is kept are the snapshots that were accepted when it was their turn. -/
theorem pushAll_snapshots (h : History) (pushed : List Snapshot) :
    (pushAll h pushed).snapshots.toList = h.snapshots.toList ++
      (pushed.zipIdx.filter fun entry => accepts (pushAll h (pushed.take entry.2)) entry.1).map
        Prod.fst := by
  induction pushed generalizing h with
  | nil => simp [pushAll]
  | cons s rest ih =>
    -- The first snapshot meets the given history, and each later one what the first has left.
    have first : pushAll h ((s :: rest).take 0) = h := rfl
    have later (k : Nat) : pushAll h ((s :: rest).take (k + 1)) =
      pushAll (Action.after (push s) h) (rest.take k) := rfl
    rw [List.zipIdx_cons, List.zipIdx_succ, List.filter_cons, List.filter_map, pushAll_cons, ih]
    simp only [Function.comp_def, first, later]
    rw [after_push]
    by_cases accepted : accepts h s = true <;> simp [accepted]

end History

/-- The longest first part of snapshots that a room can hold. -/
def fitting (room : Nat) : List Snapshot → List Snapshot
  | [] => []
  | s :: rest => if s.size ≤ room then s :: fitting (room - s.size) rest else []

variable {room : Nat} {snapshots front : List Snapshot}

theorem fitting_initial (room : Nat) (snapshots : List Snapshot) : fitting room snapshots <+: snapshots := by
  fun_induction fitting room snapshots with
  | case1 room => exact List.prefix_refl []
  | case2 room s rest fits ih => exact List.cons_prefix_cons.mpr ⟨rfl, ih⟩
  | case3 room s rest full => simp

theorem totalSize_fitting (room : Nat) (snapshots : List Snapshot) :
    totalSize (fitting room snapshots) ≤ room := by
  fun_induction fitting room snapshots with
  | case1 room => exact Nat.zero_le room
  | case2 room s rest fits ih =>
    rw [totalSize_cons]
    omega
  | case3 room s rest full => exact Nat.zero_le room

theorem fitting_longest (first : front <+: snapshots) (fits : totalSize front ≤ room) :
    front <+: fitting room snapshots := by
  induction front generalizing room snapshots with
  | nil => simp
  | cons s rest ih =>
    rw [totalSize_cons] at fits
    cases snapshots with
    | nil => simp at first
    | cons t later =>
      obtain ⟨rfl, initial⟩ := List.cons_prefix_cons.mp first
      rw [fitting, if_pos (by omega)]
      exact List.cons_prefix_cons.mpr ⟨rfl, ih initial (by omega)⟩

theorem fitting_mono {more : Nat} (larger : room ≤ more) (snapshots : List Snapshot) :
    fitting room snapshots <+: fitting more snapshots :=
  fitting_longest (fitting_initial room snapshots) ((totalSize_fitting room snapshots).trans larger)

theorem fitting_length_iff : (fitting room snapshots).length = snapshots.length ↔
    totalSize snapshots ≤ room := by
  refine ⟨fun whole => ?_, fun fits => ?_⟩
  · have same := (fitting_initial room snapshots).eq_of_length whole
    exact same ▸ totalSize_fitting room snapshots
  · have below := (fitting_initial room snapshots).length_le
    have above := (fitting_longest List.prefix_rfl fits).length_le
    omega

namespace Recording

open Trace

variable {m next : Machine} {traced : TracedOp} {rest : List TracedOp}

/-- The states that a run leaves behind, one for each operation that it gets through. -/
def states (index : Nat) (m : Machine) (ops : List TracedOp) : List Snapshot :=
  snapshotsFrom ops m index (completed m ops)

theorem states_length (index : Nat) (m : Machine) (ops : List TracedOp) :
    (states index m ops).length = completed m ops := by
  simp [states, snapshotsFrom]

def ending (index : Nat) (m : Machine) (ops : List TracedOp) : Outcome :=
  match runOps m ops with
  | .ok code => .halted code
  | .error fault => .failed (index + completed m ops) fault

theorem states_fault {fault : Fault} {after : Machine} (fails : traced.op.apply m = .error fault after)
    (index : Nat) : states index m (traced :: rest) = [] := by
  rw [states, completed, fails]
  rfl

theorem states_halt (applied : traced.op.apply m = .ok .halt next) (index : Nat) :
    states index m (traced :: rest) = [⟨next, some index⟩] := by
  rw [states, completed, applied]
  exact snapshotsFrom_succ applied index 0

theorem states_next (applied : traced.op.apply m = .ok .next next) (index : Nat) :
    states index m (traced :: rest) = ⟨next, some index⟩ :: states (index + 1) next rest := by
  rw [states, completed, applied]
  exact snapshotsFrom_succ applied index _

theorem states_cons {flow : Flow} (rest : List TracedOp) (applied : traced.op.apply m = .ok flow next)
    (index : Nat) : ∃ later, states index m (traced :: rest) = ⟨next, some index⟩ :: later := by
  cases flow with
  | next => exact ⟨_, states_next applied index⟩
  | halt => exact ⟨_, states_halt applied index⟩

theorem ending_next (applied : traced.op.apply m = .ok .next next) (index : Nat) :
    ending index m (traced :: rest) = ending (index + 1) next rest := by
  rw [ending, ending, runOps, applied, completed, applied]
  simp only [Nat.add_assoc, Nat.add_comm 1]

def outcomeAfter (count index : Nat) (m : Machine) (ops : List TracedOp) : Outcome :=
  if count = completed m ops then ending index m ops else .truncated (index + count)

theorem extend_fitting (index : Nat) (m : Machine) (h : History) (ops : List TracedOp)
    (within : h.used ≤ h.limit) :
    let kept := fitting (h.limit - h.used) (states index m ops)
    (extend index m h ops).1.snapshots.toList = h.snapshots.toList ++ kept ∧
    (extend index m h ops).2 = outcomeAfter kept.length index m ops := by
  intro kept
  fun_induction extend index m h ops with
  | case1 index m h => exact ⟨(List.append_nil _).symm, rfl⟩
  | case2 index m h traced rest fault after fails =>
    have nothing : kept = [] := by simp [kept, states_fault fails, fitting]
    have stays : completed m (traced :: rest) = 0 := by rw [completed, fails]
    rw [nothing, List.append_nil, outcomeAfter, stays, List.length_nil, if_pos rfl, ending, runOps, fails, stays]
    exact ⟨rfl, rfl⟩
  -- The history is full: the operation ran, so the count stays below the operations that the run gets through.
  | case3 index m h traced rest flow next applied error after refused =>
    obtain ⟨rfl, full⟩ := History.push_refused refused
    obtain ⟨later, shape⟩ := states_cons rest applied index
    have nothing : kept = [] := by
      simp only [kept, shape, fitting]
      rw [if_neg (by omega)]
    obtain ⟨count, counted⟩ := completed_cons rest applied
    rw [nothing, List.append_nil, outcomeAfter, counted, List.length_nil, if_neg (by omega)]
    exact ⟨rfl, rfl⟩
  | case4 index m h traced rest next _ after pushed applied =>
    have room := History.push_room pushed
    have one : kept = [⟨next, some index⟩] := by
      simp only [kept, states_halt applied, fitting]
      rw [if_pos (by omega)]
    have done : completed m (traced :: rest) = 1 := by rw [completed, applied]
    rw [one, History.push_kept pushed, Array.toList_push, outcomeAfter, done, List.length_singleton,
      if_pos rfl, ending, runOps, applied]
    exact ⟨rfl, rfl⟩
  | case5 index m h traced rest next _ after pushed applied ih =>
    have room := History.push_room pushed
    obtain rfl := History.push_kept pushed
    obtain ⟨recorded, outcome⟩ := ih room
    have more : kept = ⟨next, some index⟩ ::
        fitting (h.limit - (h.used + Snapshot.size ⟨next, some index⟩)) (states (index + 1) next rest) := by
      simp only [kept, states_next applied, fitting]
      rw [if_pos (by omega), Nat.sub_sub]
    have counted : completed m (traced :: rest) = completed next rest + 1 := by rw [completed, applied]
    rw [recorded, outcome, more, Array.toList_push, List.append_assoc]
    refine ⟨rfl, ?_⟩
    simp only [outcomeAfter, counted, List.length_cons, Nat.add_right_cancel_iff, ending_next applied]
    simp only [Nat.add_assoc, Nat.add_comm 1]

/-- The states of a run, before the first operation and after each one that it gets through. -/
def fullHistory (trace : Trace) (m : Machine) : List Snapshot := ⟨m, none⟩ :: states 0 m trace.ops

variable {trace : Trace} {limit : Nat}

theorem record_fitting (trace : Trace) (m : Machine) (limit : Nat) :
    (record trace m limit).history.snapshots.toList = fitting limit (fullHistory trace m) := by
  have size : Snapshot.size ⟨m, none⟩ = stateSize m := rfl
  rw [record_eq, fullHistory, fitting, size]
  by_cases small : limit < stateSize m
  · rw [if_pos small, if_neg (by omega)]
    rfl
  · have within : (opening m limit).used ≤ (opening m limit).limit := Nat.le_of_not_lt small
    rw [if_neg small, if_pos (Nat.le_of_not_lt small)]
    exact (extend_fitting 0 m (opening m limit) trace.ops within).1

theorem record_outcome (trace : Trace) (m : Machine) (limit : Nat) :
    (record trace m limit).outcome =
      if totalSize (fullHistory trace m) ≤ limit then ending 0 m trace.ops
      else .truncated ((record trace m limit).length - 1) := by
  have size : Snapshot.size ⟨m, none⟩ = stateSize m := rfl
  have kept := congrArg List.length (record_fitting trace m limit)
  rw [Array.length_toList] at kept
  rw [length, kept, record_eq, fullHistory, fitting, totalSize_cons, size]
  by_cases small : limit < stateSize m
  · rw [if_pos small, if_neg (by omega), if_neg (by omega)]
    rfl
  · have within : (opening m limit).used ≤ (opening m limit).limit := Nat.le_of_not_lt small
    obtain ⟨-, outcome⟩ := extend_fitting 0 m (opening m limit) trace.ops within
    change _ = outcomeAfter (fitting (limit - stateSize m) (states 0 m trace.ops)).length _ _ _ at outcome
    rw [if_neg small, if_pos (Nat.le_of_not_lt small)]
    refine outcome.trans ?_
    rw [outcomeAfter, List.length_cons, Nat.add_sub_cancel, Nat.zero_add, ← states_length 0]
    simp only [fitting_length_iff, Nat.le_sub_iff_add_le' (Nat.le_of_not_lt small)]

theorem ending_not_truncated (index : Nat) (m : Machine) (ops : List TracedOp) (i : Nat) :
    ending index m ops ≠ .truncated i := by
  rw [ending]
  split <;> simp

theorem record_truncated_iff : (∃ i, (record trace m limit).outcome = .truncated i) ↔
    limit < totalSize (fullHistory trace m) := by
  rw [record_outcome]
  split
  case isTrue whole => simp [ending_not_truncated, whole]
  case isFalse short => simp [Nat.lt_of_not_le short]

theorem record_truncated {i : Nat} (truncated : (record trace m limit).outcome = .truncated i) :
    i = (record trace m limit).length - 1 := by
  rw [record_outcome] at truncated
  split at truncated
  case isTrue => exact absurd truncated (ending_not_truncated _ _ _ _)
  case isFalse => exact (Outcome.truncated.inj truncated).symm

theorem record_covered {more : Nat} (whole : totalSize (fullHistory trace m) ≤ limit)
    (larger : limit ≤ more) :
    (record trace m more).history.snapshots = (record trace m limit).history.snapshots ∧
      (record trace m more).outcome = (record trace m limit).outcome := by
  constructor
  · rw [← Array.toList_inj, record_fitting, record_fitting]
    have all := fitting_length_iff.mpr whole
    have below := (fitting_initial more (fullHistory trace m)).length_le
    exact ((fitting_mono larger _).eq_of_length_le (by omega)).symm
  · rw [record_outcome, record_outcome, if_pos whole, if_pos (whole.trans larger)]

/-- Whatever is pushed to an empty history, the amount in use is the size of the kept snapshots and is
within the limit, kept are the snapshots that were accepted in their turn, and the next one is refused,
without a change, exactly if it would take the sum over the limit. So a recording keeps the longest first
part of the states of the run that fits in its budget. It is cut short exactly if they do not all fit, and
then it names the first operation whose state is left out. A larger budget keeps these states too, with
no others and the same outcome unless the recording was cut short. -/
theorem history_within_budget :
    (∀ limit pushed,
      let h := History.pushAll (.empty limit) pushed
      h.used = totalSize h.snapshots.toList ∧ h.used ≤ limit ∧ h.limit = limit ∧
      h.snapshots.toList = (pushed.zipIdx.filter fun entry =>
        History.accepts (.pushAll (.empty limit) (pushed.take entry.2)) entry.1).map Prod.fst ∧
      ∀ s, (History.accepts h s = false ↔ limit < totalSize h.snapshots.toList + s.size) ∧
        ∀ error after, History.push s h = .error error after → after = h) ∧
    ∀ trace m limit more, limit ≤ more →
      let r := record trace m limit
      let larger := record trace m more
      let kept := r.history.snapshots.toList
      kept <+: larger.history.snapshots.toList ∧
      (kept <+: fullHistory trace m ∧ totalSize kept ≤ limit ∧
        ∀ front, front <+: fullHistory trace m → totalSize front ≤ limit → front <+: kept) ∧
      ((∃ i, r.outcome = .truncated i) ↔ limit < totalSize (fullHistory trace m)) ∧
      (∀ i, r.outcome = .truncated i → kept ≠ [] → r.length = i + 1) ∧
      ((∀ i, r.outcome ≠ .truncated i) →
        larger.history.snapshots = r.history.snapshots ∧ larger.outcome = r.outcome) := by
  refine ⟨fun limit pushed => ?_, fun trace m limit more enlarged => ?_⟩
  · intro h
    have balanced : History.Balanced h := (History.Balanced.empty limit).pushAll pushed
    have same : h.limit = limit := History.pushAll_limit ..
    refine ⟨balanced.used, same ▸ balanced.within, same, History.pushAll_snapshots .., fun s => ⟨?_, ?_⟩⟩
    · rw [History.not_accepts_iff, same, balanced.used]
    · exact fun error after refused => (History.push_refused refused).1
  · intro r larger kept
    have recorded : kept = fitting limit (fullHistory trace m) := record_fitting ..
    refine ⟨?_, ⟨?_, ?_, ?_⟩, record_truncated_iff, ?_, ?_⟩
    · rw [recorded, record_fitting]
      exact fitting_mono enlarged _
    · exact recorded ▸ fitting_initial ..
    · exact recorded ▸ totalSize_fitting ..
    · exact fun front first fits => recorded ▸ fitting_longest first fits
    · intro i truncated some
      have index := record_truncated truncated
      have filled : 0 < kept.length := List.length_pos_of_ne_nil some
      rw [Array.length_toList] at filled
      rw [index]
      exact (Nat.sub_add_cancel filled).symm
    · intro complete
      refine record_covered (Nat.le_of_not_lt fun short => ?_) enlarged
      obtain ⟨i, truncated⟩ := record_truncated_iff.mpr short
      exact complete i truncated

/-- The state after `halt` is the one that no longer fits. -/
theorem short_history_within_budget :
    let r := record (.ofOps [.push (.ofNat 1), .allocate, .halt]) (.fresh ⟨2, 8, 1⟩) 767
    let larger := record (.ofOps [.push (.ofNat 1), .allocate, .halt]) (.fresh ⟨2, 8, 1⟩) 768
    r.outcome = .truncated 2 ∧ r.length = 3 ∧ larger.outcome = .halted success ∧ larger.length = 4 ∧
      r.history.snapshots.toList <+: larger.history.snapshots.toList := by
  intro r larger
  obtain ⟨initial, -, -, cut, -⟩ := history_within_budget.2
    (.ofOps [.push (.ofNat 1), .allocate, .halt]) (.fresh ⟨2, 8, 1⟩) 767 768 (by decide)
  have truncated : r.outcome = .truncated 2 := by decide +kernel
  exact ⟨truncated, cut 2 truncated (by decide +kernel), by decide +kernel, by decide +kernel, initial⟩

end Recording
end StackMachine
