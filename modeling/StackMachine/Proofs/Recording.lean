import Mathlib
import StackMachine.Replay
import StackMachine.Proofs.Run

/-! A recording shows the run. The loop that records and the loop that runs go through the same
machines: the snapshots are the machines before and after each operation in turn, and the outcome of
the recording is the outcome of the run, unless the budget cuts the recording short, which it never
does when it covers the states of the run. -/
namespace StackMachine

namespace History

variable {s : Snapshot} {h kept : History}

theorem push_kept (pushed : push s h = .ok () kept) :
    kept = { h with snapshots := h.snapshots.push s, used := h.used + s.size } := by
  rw [push_eq] at pushed
  split at pushed
  case isTrue => cases pushed
  case isFalse => cases pushed; rfl

theorem push_refused {error : LimitExceeded} (refused : push s h = .error error kept) :
    kept = h ∧ h.limit < h.used + s.size := by
  rw [push_eq] at refused
  split at refused
  case isTrue full => cases refused; exact ⟨rfl, full⟩
  case isFalse => cases refused

end History

namespace Recording

open Trace

variable {m next : Machine} {traced : TracedOp} {rest : List TracedOp}

def stateSize (m : Machine) : Nat := Snapshot.size ⟨m, none⟩

/-- The states that a list of operations leaves behind, as far as a count, with their indices. -/
def snapshotsFrom (ops : List TracedOp) (m : Machine) (index count : Nat) : List Snapshot :=
  (List.range count).map fun k => ⟨stateAt ops m (k + 1), some (index + k)⟩

theorem snapshotsFrom_succ {flow : Flow} (applied : traced.op.apply m = .ok flow next)
    (index count : Nat) :
    snapshotsFrom (traced :: rest) m index (count + 1) =
      ⟨next, some index⟩ :: snapshotsFrom rest next (index + 1) count := by
  rw [snapshotsFrom, List.range_succ_eq_map, List.map_cons, List.map_map, stateAt_cons_ok applied]
  refine congrArg _ (List.map_congr_left fun k _ => ?_)
  rw [Function.comp_apply, stateAt_cons_ok applied]
  simp only [Nat.succ_eq_add_one]
  congr 2
  omega

theorem extend_states (index : Nat) (m : Machine) (h : History) (ops : List TracedOp) :
    ∃ count, (extend index m h ops).1.snapshots.toList =
      h.snapshots.toList ++ snapshotsFrom ops m index count := by
  fun_induction extend index m h ops with
  | case1 index m h => exact ⟨0, (List.append_nil _).symm⟩
  | case2 index m h traced rest fault after fails => exact ⟨0, (List.append_nil _).symm⟩
  | case3 index m h traced rest flow next applied error kept refused =>
    obtain ⟨rfl, -⟩ := History.push_refused refused
    exact ⟨0, (List.append_nil _).symm⟩
  | case4 index m h traced rest next _ kept pushed applied =>
    refine ⟨1, ?_⟩
    rw [History.push_kept pushed, snapshotsFrom_succ applied, Array.toList_push]
    rfl
  | case5 index m h traced rest next _ kept pushed applied ih =>
    obtain ⟨count, recorded⟩ := ih
    refine ⟨count + 1, ?_⟩
    rw [recorded, History.push_kept pushed, snapshotsFrom_succ applied, Array.toList_push,
      List.append_assoc]
    rfl

theorem extend_halted (index : Nat) (m : Machine) (h : History) (ops : List TracedOp) {code : Nat}
    (halted : (extend index m h ops).2 = .halted code) :
    runOps m ops = .ok code ∧
      (extend index m h ops).1.snapshots.size = h.snapshots.size + executed ops := by
  fun_induction extend index m h ops with
  | case1 index m h =>
    cases halted
    exact ⟨rfl, rfl⟩
  | case2 index m h traced rest fault after fails => cases halted
  | case3 index m h traced rest flow next applied error kept refused => cases halted
  | case4 index m h traced rest next _ kept pushed applied =>
    cases halted
    rw [History.push_kept pushed, runOps, applied, executed_halt applied, Array.size_push]
    exact ⟨rfl, rfl⟩
  | case5 index m h traced rest next _ kept pushed applied ih =>
    obtain ⟨runs, size⟩ := ih halted
    rw [size, History.push_kept pushed, runOps, applied, executed_next applied, Array.size_push]
    exact ⟨runs, by omega⟩

theorem extend_failed (index : Nat) (m : Machine) (h : History) (ops : List TracedOp) {i : Nat}
    {fault : Fault} (failed : (extend index m h ops).2 = .failed i fault) :
    ∃ count, i = index + count ∧ FailsAt ops m count fault ∧
      (extend index m h ops).1.snapshots.size = h.snapshots.size + count := by
  fun_induction extend index m h ops with
  | case1 index m h => cases failed
  | case2 index m h traced rest fault after fails =>
    cases failed
    exact ⟨0, rfl, .head fails, rfl⟩
  | case3 index m h traced rest flow next applied error kept refused => cases failed
  | case4 index m h traced rest next _ kept pushed applied => cases failed
  | case5 index m h traced rest next _ kept pushed applied ih =>
    obtain ⟨count, rfl, fails, size⟩ := ih failed
    refine ⟨count + 1, by omega, .cons applied fails, ?_⟩
    rw [size, History.push_kept pushed, Array.size_push]
    omega

theorem sum_stateSize_cons {flow : Flow} (applied : traced.op.apply m = .ok flow next) (count : Nat) :
    ∑ k ∈ Finset.range (count + 1), stateSize (stateAt (traced :: rest) m (k + 1)) =
      stateSize next + ∑ k ∈ Finset.range count, stateSize (stateAt rest next (k + 1)) := by
  simp only [stateAt_cons_ok applied]
  rw [Finset.sum_range_succ', Nat.add_comm]
  rfl

/-- A recording that is cut short has met a budget below the sizes of the states of the run. -/
theorem extend_truncated (index : Nat) (m : Machine) (h : History) (ops : List TracedOp) {i : Nat}
    (truncated : (extend index m h ops).2 = .truncated i) :
    h.limit < h.used + ∑ k ∈ Finset.range (completed m ops), stateSize (stateAt ops m (k + 1)) := by
  fun_induction extend index m h ops with
  | case1 index m h => cases truncated
  | case2 index m h traced rest fault after fails => cases truncated
  | case3 index m h traced rest flow next applied error kept refused =>
    obtain ⟨-, full⟩ := History.push_refused refused
    obtain ⟨count, counted⟩ := completed_cons rest applied
    have size : Snapshot.size ⟨next, some index⟩ = stateSize next := rfl
    rw [counted, sum_stateSize_cons applied]
    omega
  | case4 index m h traced rest next _ kept pushed applied => cases truncated
  | case5 index m h traced rest next _ kept pushed applied ih =>
    have later := ih truncated
    have size : Snapshot.size ⟨next, some index⟩ = stateSize next := rfl
    simp only [History.push_kept pushed, size] at later
    rw [completed, applied, sum_stateSize_cons applied]
    omega

def opening (m : Machine) (limit : Nat) : History := ⟨#[⟨m, none⟩], limit, stateSize m⟩

theorem record_eq (trace : Trace) (m : Machine) (limit : Nat) :
    record trace m limit =
      if limit < stateSize m then ⟨trace, .empty limit, .truncated 0⟩
      else ⟨trace, (extend 0 m (opening m limit) trace.ops).1,
        (extend 0 m (opening m limit) trace.ops).2⟩ := by
  have used : (History.empty limit).used + Snapshot.size ⟨m, none⟩ = stateSize m := Nat.zero_add _
  have budget : (History.empty limit).limit = limit := rfl
  rw [record, History.push_eq, used, budget]
  by_cases small : limit < stateSize m
  · rw [if_pos small, if_pos small]
  · rw [if_neg small, if_neg small]
    rfl

theorem record_trace (trace : Trace) (m : Machine) (limit : Nat) : (record trace m limit).trace = trace := by
  rw [record_eq]
  split_ifs <;> rfl

variable {trace : Trace} {limit : Nat}

theorem record_states {k : Nat} {s : Snapshot}
    (kept : (record trace m limit).history.snapshots[k]? = some s) :
    s.machine = stateAt trace.ops m k ∧ s.opIndex = if k = 0 then none else some (k - 1) := by
  rw [record_eq] at kept
  split at kept
  case isTrue => cases kept
  case isFalse =>
    obtain ⟨count, recorded⟩ := extend_states 0 m (opening m limit) trace.ops
    rw [← Array.getElem?_toList, recorded] at kept
    cases k with
    | zero =>
      cases kept
      exact ⟨rfl, rfl⟩
    | succ k =>
      rw [opening, List.singleton_append, List.getElem?_cons_succ, snapshotsFrom, List.getElem?_map]
        at kept
      obtain ⟨j, found, rfl⟩ := Option.map_eq_some_iff.mp kept
      obtain ⟨-, rfl⟩ := List.getElem?_eq_some_iff.mp found
      simp

theorem record_halted {code : Nat} (halted : (record trace m limit).outcome = .halted code) :
    trace.run m = .ok code ∧ (record trace m limit).length = executed trace.ops + 1 := by
  rw [length, record_eq]
  rw [record_eq] at halted
  split at halted
  case isTrue => cases halted
  case isFalse room =>
    obtain ⟨runs, size⟩ := extend_halted 0 m (opening m limit) trace.ops halted
    rw [if_neg room]
    exact ⟨runs, size.trans (Nat.add_comm 1 _)⟩

theorem record_failed {i : Nat} {fault : Fault}
    (failed : (record trace m limit).outcome = .failed i fault) :
    (record trace m limit).length = i + 1 ∧ FailsAt trace.ops m i fault := by
  rw [length, record_eq]
  rw [record_eq] at failed
  split at failed
  case isTrue => cases failed
  case isFalse room =>
    obtain ⟨count, rfl, fails, size⟩ := extend_failed 0 m (opening m limit) trace.ops failed
    rw [if_neg room, Nat.zero_add]
    exact ⟨size.trans (Nat.add_comm 1 _), fails⟩

theorem record_not_truncated
    (covered : ∑ k ∈ Finset.range (completed m trace.ops + 1), stateSize (stateAt trace.ops m k) ≤ limit)
    (i : Nat) : (record trace m limit).outcome ≠ .truncated i := by
  intro truncated
  have split : ∑ k ∈ Finset.range (completed m trace.ops + 1), stateSize (stateAt trace.ops m k) =
      ∑ k ∈ Finset.range (completed m trace.ops), stateSize (stateAt trace.ops m (k + 1)) +
        stateSize m := Finset.sum_range_succ' ..
  rw [record_eq, if_neg (by omega)] at truncated
  have short := extend_truncated 0 m (opening m limit) trace.ops truncated
  change limit < stateSize m + _ at short
  omega

/-- A recording agrees with the run. Its snapshots are the machine given and the machines that the
operations leave behind; its outcome is that of the run, with a snapshot for each state, the last one
being the state that a failing operation met; and only a budget below the sizes of all states of the
run can cut it short. -/
theorem record_agrees_with_run (trace : Trace) (m : Machine) (limit : Nat) :
    (∀ k s, (record trace m limit).history.snapshots[k]? = some s →
      s.machine = stateAt trace.ops m k ∧ s.opIndex = if k = 0 then none else some (k - 1)) ∧
    (∀ code, (record trace m limit).outcome = .halted code →
      trace.run m = .ok code ∧ (record trace m limit).length = executed trace.ops + 1) ∧
    (∀ i fault, (record trace m limit).outcome = .failed i fault →
      trace.run m = .error fault ∧ (record trace m limit).length = i + 1 ∧
      FailsAt trace.ops m i fault ∧
      ∃ traced s after, trace.ops[i]? = some traced ∧
        (record trace m limit).history.snapshots.back? = some s ∧
        traced.op.apply s.machine = .error fault after) ∧
    (∑ k ∈ Finset.range (completed m trace.ops + 1), stateSize (stateAt trace.ops m k) ≤ limit →
      ∀ i, (record trace m limit).outcome ≠ .truncated i) := by
  refine ⟨fun k s kept => record_states kept, fun code halted => record_halted halted,
    fun i fault failed => ?_, record_not_truncated⟩
  obtain ⟨size, fails⟩ := record_failed failed
  refine ⟨fails.run, size, fails, ?_⟩
  -- The last snapshot stands at the index of the failing operation.
  obtain ⟨traced, after, found, fault⟩ := fails.fails
  have last : i < (record trace m limit).history.snapshots.size := by
    rw [length] at size
    omega
  obtain ⟨s, kept⟩ : ∃ s, (record trace m limit).history.snapshots[i]? = some s :=
    ⟨_, Array.getElem?_eq_getElem last⟩
  refine ⟨traced, s, after, found, ?_, ?_⟩
  · rw [length] at size
    rw [Array.back?, size, Nat.add_sub_cancel, kept]
  · rw [(record_states kept).1]
    exact fault

theorem record_failing_run :
    let r := record (.ofOps [.push (.ofNat 1), .free]) (.fresh ⟨2, 8, 1⟩) 1000
    r.outcome = .failed 1 (.stackUnderflow "free" 2 1) ∧ r.length = 2 := by
  intro r
  have failed : r.outcome = .failed 1 (.stackUnderflow "free" 2 1) := by decide +kernel
  obtain ⟨-, -, failures, -⟩ := record_agrees_with_run
    (.ofOps [.push (.ofNat 1), .free]) (.fresh ⟨2, 8, 1⟩) 1000
  exact ⟨failed, (failures 1 _ failed).2.1⟩

end Recording
end StackMachine
