import Mathlib
import StackMachine.Trace
import StackMachine.Proofs.Action

/-! Runs of a trace, seen from outside: the machine before each operation, how many operations a run
gets through, and what it means that the run fails at an operation. Each notion comes with its rule
for the first operation of the list, so that loops over a trace are followed by induction. -/
namespace StackMachine

theorem Op.flow_of_apply {op : Op} {m next : Machine} {flow : Flow}
    (applied : op.apply m = .ok flow next) : flow = op.flow := by
  rw [Op.apply, Action.bind_run] at applied
  cases ends : op.effect m with
  | ok _ after => rw [ends] at applied; cases applied; rfl
  | error fault after => rw [ends] at applied; cases applied

theorem Op.flow_eq_halt {op : Op} : op.flow = .halt ↔ op = .halt := by
  cases op <;> simp [Op.flow]

namespace Trace

variable {m next : Machine} {fault : Fault} {traced : TracedOp} {rest : List TracedOp}

/-- The machine before the operation at an index: each operation is applied to what the one before
it leaves behind. -/
def stateAt (ops : List TracedOp) (m : Machine) : Nat → Machine
  | 0 => m
  | k + 1 =>
      match ops[k]? with
      | some traced => Action.after traced.op.apply (stateAt ops m k)
      | none => stateAt ops m k

/-- The number of operations that a run without faults executes: up to the first `halt`, or all. -/
def executed : List TracedOp → Nat
  | [] => 0
  | traced :: rest => if traced.op = .halt then 1 else executed rest + 1

def completed (m : Machine) : List TracedOp → Nat
  | [] => 0
  | traced :: rest =>
      match traced.op.apply m with
      | .error _ _ => 0
      | .ok .halt _ => 1
      | .ok .next next => completed next rest + 1

/-- The run fails at an operation: it goes on after each earlier one and meets the fault there. -/
structure FailsAt (ops : List TracedOp) (m : Machine) (i : Nat) (fault : Fault) : Prop where
  earlier : ∀ j < i, ∃ traced next, ops[j]? = some traced ∧
    traced.op.apply (stateAt ops m j) = .ok .next next
  fails : ∃ traced after, ops[i]? = some traced ∧
    traced.op.apply (stateAt ops m i) = .error fault after

theorem stateAt_cons (k : Nat) :
    stateAt (traced :: rest) m (k + 1) = stateAt rest (Action.after traced.op.apply m) k := by
  induction k with
  | zero => rfl
  | succ k ih => rw [stateAt, ih, List.getElem?_cons_succ, stateAt]

theorem stateAt_cons_ok {flow : Flow} (applied : traced.op.apply m = .ok flow next) (k : Nat) :
    stateAt (traced :: rest) m (k + 1) = stateAt rest next k := by
  rw [stateAt_cons, Action.after_ok applied]

theorem executed_halt {next : Machine} (applied : traced.op.apply m = .ok .halt next) :
    executed (traced :: rest) = 1 :=
  if_pos (Op.flow_eq_halt.mp (Op.flow_of_apply applied).symm)

theorem executed_next {next : Machine} (applied : traced.op.apply m = .ok .next next) :
    executed (traced :: rest) = executed rest + 1 := by
  refine if_neg fun halts => ?_
  have flow := Op.flow_of_apply applied
  rw [Op.flow_eq_halt.mpr halts] at flow
  cases flow

theorem completed_cons {flow : Flow} (rest : List TracedOp)
    (applied : traced.op.apply m = .ok flow next) :
    ∃ count, completed m (traced :: rest) = count + 1 := by
  rw [completed, applied]
  cases flow with
  | next => exact ⟨completed next rest, rfl⟩
  | halt => exact ⟨0, rfl⟩

theorem FailsAt.head {after : Machine} (fails : traced.op.apply m = .error fault after) :
    FailsAt (traced :: rest) m 0 fault :=
  ⟨fun j early => absurd early (Nat.not_lt_zero j), traced, after, rfl, fails⟩

theorem FailsAt.cons (applied : traced.op.apply m = .ok .next next) {i : Nat}
    (later : FailsAt rest next i fault) : FailsAt (traced :: rest) m (i + 1) fault := by
  obtain ⟨earlier, failing, after, found, fails⟩ := later
  refine ⟨fun j early => ?_, failing, after, found, ?_⟩
  · cases j with
    | zero => exact ⟨traced, next, rfl, applied⟩
    | succ j =>
      rw [stateAt_cons_ok applied]
      exact earlier j (Nat.lt_of_succ_lt_succ early)
  · rw [stateAt_cons_ok applied]
    exact fails

theorem FailsAt.run {ops : List TracedOp} {i : Nat} (failing : FailsAt ops m i fault) :
    runOps m ops = .error fault := by
  induction i generalizing m ops with
  | zero =>
    obtain ⟨traced, after, found, fails⟩ := failing.fails
    cases ops with
    | nil => cases found
    | cons head rest =>
      cases found
      rw [stateAt] at fails
      rw [runOps, fails]
  | succ i ih =>
    obtain ⟨head, next, first, applied⟩ := failing.earlier 0 (Nat.succ_pos i)
    cases ops with
    | nil => cases first
    | cons traced rest =>
      cases first
      rw [stateAt] at applied
      rw [runOps, applied]
      refine ih ⟨fun j early => ?_, ?_⟩
      · have later := failing.earlier (j + 1) (Nat.succ_lt_succ early)
        rwa [stateAt_cons_ok applied] at later
      · have fails := failing.fails
        rwa [stateAt_cons_ok applied] at fails

theorem applied_of_completed {ops : List TracedOp} {j : Nat} (early : j < completed m ops) :
    ∃ traced flow, ops[j]? = some traced ∧
      traced.op.apply (stateAt ops m j) = .ok flow (stateAt ops m (j + 1)) := by
  induction ops generalizing m j with
  | nil => cases early
  | cons traced rest ih =>
    rw [completed] at early
    cases applied : traced.op.apply m with
    | error fault after =>
      rw [applied] at early
      cases early
    | ok flow next =>
      cases j with
      | zero =>
        refine ⟨traced, flow, rfl, ?_⟩
        rw [stateAt_cons_ok applied]
        exact applied
      | succ j =>
        rw [stateAt_cons_ok applied, stateAt_cons_ok applied]
        cases flow with
        | halt =>
          rw [applied] at early
          cases Nat.lt_of_succ_lt_succ early
        | next =>
          rw [applied] at early
          exact ih (Nat.lt_of_succ_lt_succ early)

theorem completed_of_run {ops : List TracedOp} {code : Nat} (runs : runOps m ops = .ok code) :
    completed m ops = executed ops := by
  induction ops generalizing m with
  | nil => rfl
  | cons traced rest ih =>
    rw [runOps] at runs
    rw [completed]
    cases applied : traced.op.apply m with
    | error fault after =>
      rw [applied] at runs
      cases runs
    | ok flow next =>
      rw [applied] at runs
      cases flow with
      | halt => rw [executed_halt applied]
      | next => rw [executed_next applied, ← ih runs]

theorem applied_of_run {ops : List TracedOp} {code : Nat} (runs : runOps m ops = .ok code) {j : Nat}
    (early : j < executed ops) : ∃ traced flow next, ops[j]? = some traced ∧
      traced.op.apply (stateAt ops m j) = .ok flow next := by
  rw [← completed_of_run runs] at early
  obtain ⟨traced, flow, found, applied⟩ := applied_of_completed early
  exact ⟨traced, flow, _, found, applied⟩

end Trace
end StackMachine
