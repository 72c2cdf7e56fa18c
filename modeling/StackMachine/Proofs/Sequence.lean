import Mathlib
import StackMachine.Proofs.Reachable

/-! Operations one after the other. `Machine.Runs m ops next` says that every operation of the list
succeeds, each on the machine that the one before it leaves, and that none of them ends the run. What
a list can do is put together from what its parts do. `Machine.serve m requests` is the machine that a
list of requests leaves behind, whichever way each of them ends; the states of such a run are those after
its first `k` requests. -/
namespace StackMachine

theorem Op.apply_of_step {m next : Machine} (form : m.WellFormed) {op : Op}
    (taken : op.step m = .ok next) (counted : op = .enter → m.frameDepth < Word.last) :
    op.apply m = .ok op.flow next := by
  rw [Op.apply_eq form op counted, taken]

namespace Machine

variable {m mid next : Machine} {ops more : List Op}

/-- Every operation of a list succeeds, on the machine that the one before leaves. -/
inductive Runs : Machine → List Op → Machine → Prop
  | nil (m : Machine) : Runs m [] m
  | cons {m mid next : Machine} {op : Op} {rest : List Op} (first : op.apply m = .ok .next mid)
      (later : Runs mid rest next) : Runs m (op :: rest) next

theorem Runs.append (first : Runs m ops mid) (later : Runs mid more next) :
    Runs m (ops ++ more) next := by
  induction first with
  | nil m => exact later
  | cons applied _ ih => exact .cons applied (ih later)

theorem Runs.of_append (runs : Runs m (ops ++ more) next) :
    ∃ mid, Runs m ops mid ∧ Runs mid more next := by
  induction ops generalizing m with
  | nil => exact ⟨m, .nil m, runs⟩
  | cons op rest ih =>
    cases runs with
    | cons applied later =>
      obtain ⟨mid, before, behind⟩ := ih later
      exact ⟨mid, .cons applied before, behind⟩

theorem Runs.unique {other : Machine} (first : Runs m ops next) (second : Runs m ops other) :
    next = other := by
  induction first with
  | nil m =>
    cases second
    rfl
  | cons applied _ ih =>
    cases second with
    | cons again later =>
      rw [applied] at again
      cases again
      exact ih later

theorem push_apply (form : m.WellFormed) (room : m.stack.values.length < m.stack.capacity)
    (v : Value) : (Op.push v).apply m = .ok .next (m.keeping (v :: m.stack.values)) :=
  Op.apply_of_step form (if_pos room) nofun

theorem binary_apply {below : List Value} {a b : Value} (form : m.WellFormed)
    (live : m.stack.live = below ++ [a, b]) (op : BinaryOperator) :
    (Op.binary op).apply m =
      match op.apply a b with
      | .ok v => .ok .next (m.keeping (v :: below.reverse))
      | .error fault => .error fault m := by
  have values : m.stack.values = b :: a :: below.reverse := OperandStack.values_of_live live
  rw [Op.apply_eq form _ (by simp), Op.step, Step.binary, values]
  cases result : op.apply a b with
  | ok v =>
    simp only [result, bind, Except.bind]
    rfl
  | error fault => simp only [result, bind, Except.bind]

theorem WellFormed.of_keeping {values : List Value} (form : m.WellFormed)
    (fits : values.length ≤ m.stack.capacity) : (m.keeping values).WellFormed :=
  form.of_follows (form.follows fits)

theorem runs_push (form : m.WellFormed) (values : List Value)
    (room : m.stack.values.length + values.length ≤ m.stack.capacity) :
    Runs m (values.map .push) (m.keeping (values.reverse ++ m.stack.values)) := by
  induction values generalizing m with
  | nil =>
    rw [List.reverse_nil, List.nil_append, form.stack]
    exact .nil m
  | cons v rest ih =>
    rw [List.length_cons] at room
    have fits : (v :: m.stack.values).length ≤ m.stack.capacity := by
      rw [List.length_cons]
      omega
    have later := ih (form.of_keeping fits) (by
      rw [keeping_values, keeping_capacity fits, List.length_cons]
      omega)
    rw [keeping_values, keeping_keeping fits, List.append_cons, ← List.reverse_cons] at later
    exact .cons (push_apply form fits v) later

theorem room_of_pushes (form : m.WellFormed) {values : List Value}
    (runs : Runs m (values.map .push) next) : m.stack.values.length + values.length ≤ m.stack.capacity := by
  induction values generalizing m with
  | nil => exact form.fits
  | cons v rest ih =>
    cases runs with
    | cons applied later =>
      obtain ⟨room, rfl⟩ := Step.push_ok (step_of_apply form applied).1
      have fits : (v :: m.stack.values).length ≤ m.stack.capacity := room
      have remaining := ih (form.of_keeping fits) later
      rw [keeping_values, keeping_capacity fits, List.length_cons] at remaining
      rw [List.length_cons]
      omega

theorem eq_of_pushes (form : m.WellFormed) {values : List Value} (runs : Runs m (values.map .push) next) :
    next = m.keeping (values.reverse ++ m.stack.values) :=
  runs.unique (runs_push form values (room_of_pushes form runs))

theorem Reachable.runs {config : Config} (reachable : Reachable config m) (runs : Runs m ops next) :
    Reachable config next := by
  induction runs with
  | nil m => exact reachable
  | cons applied _ ih => exact ih (Action.after_ok applied ▸ reachable.apply _)

end Machine

inductive Request where
  | apply (op : Op)
  | pop
  deriving DecidableEq, Repr, Inhabited

def Request.after : Request → Machine → Machine
  | .apply op, m => Action.after op.apply m
  | .pop, m => Action.after Machine.pop m

namespace Machine

variable {m : Machine} {request : Request} {requests : List Request} {config : Config}

def serve (m : Machine) (requests : List Request) : Machine :=
  requests.foldl (fun m request => request.after m) m

theorem Reachable.after (reachable : Reachable config m) (request : Request) :
    Reachable config (request.after m) := by
  cases request with
  | apply op => exact Reachable.apply op reachable
  | pop => exact Reachable.pop reachable

theorem Reachable.serve (reachable : Reachable config m) (requests : List Request) :
    Reachable config (m.serve requests) := by
  induction requests generalizing m with
  | nil => exact reachable
  | cons request rest ih => exact ih (reachable.after request)

theorem serve_induction {P : Machine → Prop} (start : P m)
    (kept : ∀ k request, requests[k]? = some request → P (m.serve (requests.take k)) →
      P (request.after (m.serve (requests.take k)))) (k : Nat) : P (m.serve (requests.take k)) :=
  Action.run_induction start kept k

end Machine
end StackMachine
