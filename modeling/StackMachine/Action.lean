/-! Steps on a state that end with a result or an error, and with a state either way. What a step
that stops leaves behind is part of its result. These are the rules by which such steps run. -/
namespace StackMachine.Action

variable {ε σ α β : Type}

@[simp] theorem pure_run (x : α) (s : σ) : (pure x : EStateM ε σ α) s = .ok x s := rfl

@[simp] theorem throw_run (e : ε) (s : σ) : (throw e : EStateM ε σ α) s = .error e s := rfl

@[simp] theorem get_run (s : σ) : (get : EStateM ε σ σ) s = .ok s s := rfl

@[simp] theorem set_run (next s : σ) : (set next : EStateM ε σ PUnit) s = .ok () next := rfl

@[simp] theorem modify_run (f : σ → σ) (s : σ) :
    (modify f : EStateM ε σ PUnit) s = .ok () (f s) := rfl

theorem bind_run (x : EStateM ε σ α) (f : α → EStateM ε σ β) (s : σ) :
    (x >>= f) s = match x s with
      | .ok a next => f a next
      | .error e next => .error e next := rfl

theorem bind_ok {x : EStateM ε σ α} {f : α → EStateM ε σ β} {s next : σ} {a : α}
    (first : x s = .ok a next) : (x >>= f) s = f a next := by
  rw [bind_run, first]

theorem bind_error {x : EStateM ε σ α} {f : α → EStateM ε σ β} {s next : σ} {e : ε}
    (first : x s = .error e next) : (x >>= f) s = .error e next := by
  rw [bind_run, first]

end StackMachine.Action
