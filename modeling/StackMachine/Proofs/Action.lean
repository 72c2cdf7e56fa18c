import Mathlib
import StackMachine.Fault

/-! How checks run inside actions. A check is a value that is there or a fault; lifted into an action
it never touches the state. `Action.after` is the state that an action leaves behind, whichever way it
ends, and `Action.settle` is the ending of an action that is all checks until its one change: the new
state when the checks pass, the old state when one fails. -/
namespace StackMachine.Action

variable {σ α β : Type} {f : α → Action σ β} {s : σ} {a : α}

theorem bind_step {x : Except Trap α} (passes : x = .ok a) :
    ((liftM x : Action σ α) >>= f) s = f a s := by
  rw [passes]
  rfl

theorem bind_check {x : Except Fault α} (passes : x = .ok a) :
    ((liftM x : Action σ α) >>= f) s = f a s := by
  rw [passes]
  rfl

/-- The state that an action leaves behind. -/
def after {ε : Type} (x : EStateM ε σ α) (s : σ) : σ :=
  match x s with
  | .ok _ next => next
  | .error _ next => next

theorem after_ok {ε : Type} {x : EStateM ε σ α} {next : σ} (ends : x s = .ok a next) :
    after x s = next := by rw [after, ends]

theorem after_error {ε : Type} {x : EStateM ε σ α} {e : ε} {next : σ} (ends : x s = .error e next) :
    after x s = next := by rw [after, ends]

theorem ok_of_answered {ε : Type} {x : EStateM ε σ α} (answered : x.run' s = some a) :
    x s = .ok a (after x s) := by
  rw [EStateM.run', EStateM.run] at answered
  rw [after]
  cases ends : x s with
  | ok b next => rw [ends] at answered; cases answered; rfl
  | error e next => rw [ends] at answered; cases answered

/-- End with the state that a computation leads to, or with the old state and its fault. -/
def settle (s : σ) : Except Fault σ → EStateM.Result Fault σ Unit
  | .ok next => .ok () next
  | .error fault => .error fault s

def answer (s : σ) : Except Fault (α × σ) → EStateM.Result Fault σ α
  | .ok (x, next) => .ok x next
  | .error fault => .error fault s

@[simp] theorem settle_ok (next : σ) : settle s (.ok next) = .ok () next := rfl

@[simp] theorem settle_error (fault : Fault) : settle s (.error fault) = .error fault s := rfl

theorem check_settle {x : Except Fault α} {f : α → Action σ Unit} {g : α → Except Fault σ}
    (rest : ∀ a, x = .ok a → f a s = settle s (g a)) :
    ((liftM x : Action σ α) >>= f) s = settle s (x >>= g) := by
  cases x with
  | ok a => exact rest a rfl
  | error fault => rfl

theorem check_answer {x : Except Fault α} {f : α → Action σ β} {g : α → Except Fault (β × σ)}
    (rest : ∀ a, x = .ok a → f a s = answer s (g a)) :
    ((liftM x : Action σ α) >>= f) s = answer s (x >>= g) := by
  cases x with
  | ok a => exact rest a rfl
  | error fault => rfl

theorem check_passed {x : Except Fault α} {g : α → Except Fault β} {b : β}
    (passes : (x >>= g) = .ok b) : ∃ a, x = .ok a ∧ g a = .ok b := by
  cases x with
  | ok a => exact ⟨a, rfl, passes⟩
  | error fault => cases passes

theorem answer_ok {outcome : Except Fault (α × σ)} {next : σ}
    (ends : answer s outcome = .ok a next) : outcome = .ok (a, next) := by
  cases outcome with
  | ok pair => cases ends; rfl
  | error fault => cases ends

theorem map_snd_ok {outcome : Except Fault (α × σ)} {next : σ}
    (ends : outcome.map Prod.snd = .ok next) : ∃ x, outcome = .ok (x, next) := by
  cases outcome with
  | ok pair => cases ends; exact ⟨pair.1, rfl⟩
  | error fault => cases ends

theorem discard_run {x : Action σ α} {outcome : Except Fault (α × σ)} (run : x s = answer s outcome) :
    (discard x : Action σ Unit) s = settle s (outcome.map Prod.snd) := by
  cases outcome with
  | ok pair =>
    rw [show (discard x : Action σ Unit) = x >>= fun _ => pure () from rfl, bind_ok run]
    rfl
  | error fault =>
    rw [show (discard x : Action σ Unit) = x >>= fun _ => pure () from rfl, bind_error run]
    rfl

theorem run_induction {P : σ → Prop} {next : σ → α → σ} {steps : List α} (start : P s)
    (kept : ∀ k step, steps[k]? = some step → P ((steps.take k).foldl next s) →
      P (next ((steps.take k).foldl next s) step)) (k : Nat) : P ((steps.take k).foldl next s) := by
  induction k with
  | zero => exact start
  | succ k ih =>
    cases found : steps[k]? with
    | some step =>
      rw [List.take_add_one, found, List.foldl_append]
      exact kept k step found ih
    | none =>
      have all := List.getElem?_eq_none_iff.mp found
      rw [List.take_of_length_le all] at ih
      rwa [List.take_of_length_le (all.trans k.le_succ)]

end StackMachine.Action
