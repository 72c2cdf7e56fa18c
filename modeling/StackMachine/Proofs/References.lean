import Mathlib
import StackMachine.Proofs.Hooks
import StackMachine.Proofs.Index

/-! Variables behind references. A reference is one more than the position of its slot, carried in a value.
However a program comes by it, `copy` puts the value of the slot in its place, and `move` writes the value
below it to the slot; both look only at what lies below their operands, so a reference to the top slot of a
machine is good for both. A hook is one way to come by a reference: in every machine that operations lead to
it keeps one between 1 and the capacity, and up to `2 ^ 24` a value carries it exactly. -/
namespace StackMachine.Machine

variable {m next : Machine} {ops : List Op} {reference v w : Value} {rest : List Value} {index : Nat}
  {config : Config}

def withSlot (m : Machine) (index : Nat) (v : Value) : Machine :=
  { m with stack := ⟨m.stack.slots.setIfInBounds index v, m.stack.pointer⟩ }

theorem keeping_set (form : m.WellFormed) (live : index < m.stack.values.length) (v : Value) :
    m.keeping (m.stack.values.reverse.set index v).reverse = m.withSlot index v := by
  have slots : (OperandStack.holding m.stack.capacity m.stack.values).slots.setIfInBounds index v = _ :=
    OperandStack.holding_set live
  rw [form.holding] at slots
  rw [withSlot, slots, form.pointer, keeping]
  congr 2
  simp [OperandStack.holding]

theorem resolve_of_names {live : Nat} (named : reference.toIndex? = some (index + 1)) (inside : index < live)
    (operation : String) : resolve reference live operation = .ok index := by
  rw [resolve_eq, Value.expectIndex_of_toIndex? named]
  simp only [bind, Except.bind, Nat.succ_ne_zero, if_false, Nat.not_lt.mpr (Nat.succ_le_of_lt inside),
    Nat.add_sub_cancel]

theorem copy_apply (form : m.WellFormed) (live : m.stack.values = reference :: rest)
    (named : reference.toIndex? = some (index + 1)) (found : rest.reverse[index]? = some v) :
    Op.copy.apply m = .ok .next (m.keeping (v :: rest)) := by
  have inside : index < rest.length := by
    simpa using (List.getElem?_eq_some_iff.mp found).1
  have value : rest.reverse.getD index .zero = v := by
    rw [List.getD_eq_getElem?_getD, found, Option.getD_some]
  refine Op.apply_of_step form ?_ (by simp)
  rw [Op.step, Step.copy, live]
  dsimp only
  rw [resolve_of_names named inside]
  exact congrArg (fun v => Except.ok (m.keeping (v :: rest))) value

theorem move_apply (form : m.WellFormed) (live : m.stack.values = reference :: w :: rest)
    (named : reference.toIndex? = some (index + 1)) (inside : index < rest.length) :
    Op.move.apply m = .ok .next (m.keeping (rest.reverse.set index w).reverse) := by
  refine Op.apply_of_step form ?_ (by simp)
  rw [Op.step, Step.move, live]
  dsimp only
  rw [resolve_of_names named inside]
  rfl

theorem runs_copy (form : m.WellFormed) (room : m.stack.values.length < m.stack.capacity)
    (pushed : Runs m ops (m.keeping (reference :: m.stack.values)))
    (named : reference.toIndex? = some (index + 1)) (found : m.stack.live[index]? = some v) :
    Runs m (ops ++ [.copy]) (m.keeping (v :: m.stack.values)) := by
  have fits : (reference :: m.stack.values).length ≤ m.stack.capacity := room
  rw [OperandStack.live_eq_reverse] at found
  have copied := copy_apply (form.of_keeping fits) keeping_values named found
  rw [keeping_keeping fits] at copied
  exact pushed.append (.cons copied (.nil _))

theorem runs_move (form : m.WellFormed) (room : m.stack.values.length + 2 ≤ m.stack.capacity)
    (pushed : Runs (m.keeping (w :: m.stack.values)) ops (m.keeping (reference :: w :: m.stack.values)))
    (named : reference.toIndex? = some (index + 1)) (inside : index < m.stack.pointer) :
    Runs m (.push w :: (ops ++ [.move])) (m.withSlot index w) := by
  have fits : (reference :: w :: m.stack.values).length ≤ m.stack.capacity := room
  rw [form.pointer] at inside
  have moved := move_apply (form.of_keeping fits) keeping_values named inside
  rw [keeping_keeping fits, keeping_set form inside] at moved
  exact .cons (push_apply form (Nat.lt_of_succ_lt room) w) (pushed.append (.cons moved (.nil _)))

def HooksInside (m : Machine) : Prop :=
  ∀ i r : Nat, m.hooks[i]? = some (some r) → 1 ≤ r ∧ r ≤ m.stack.capacity

theorem step_hooksInside (form : m.WellFormed) (inside : m.HooksInside) {op : Op}
    (taken : op.step m = .ok next) (capacity : next.stack.capacity = m.stack.capacity) :
    next.HooksInside := by
  intro i r kept
  rw [capacity]
  by_cases sets : ∃ index, op = .hook index ∧ index.toNat = i
  · obtain ⟨index, rfl, rfl⟩ := sets
    obtain ⟨checked, filled, rfl⟩ := Step.hook_ok taken
    rw [Array.getElem?_setIfInBounds_self_of_lt (checkHook_lt checked)] at kept
    cases kept
    exact ⟨form.pointer ▸ filled, form.fits⟩
  · have spared := (Op.step_touches form taken).2.hooks i fun index sets' named => sets ⟨index, sets', named⟩
    exact inside i r (spared ▸ kept)

theorem Reachable.hooksInside (addressable : config.Addressable) (reachable : Reachable config m) :
    m.HooksInside := by
  induction reachable with
  | fresh =>
    intro i r kept
    simp [Machine.fresh, Array.getElem?_replicate] at kept
  | @apply m op before ih =>
    have form := before.wellFormed addressable
    have capacity := (form.follows_apply op).capacity
    obtain ⟨next, step, run⟩ | ⟨fault, next, run, -, hooks⟩ := apply_ends form op
    · rw [Action.after_ok run] at capacity ⊢
      exact step_hooksInside form ih step capacity
    · rw [Action.after_error run] at capacity ⊢
      rw [HooksInside, hooks, capacity]
      exact ih
  | @pop m before ih =>
    have capacity := (before.wellFormed addressable).follows_pop.capacity
    obtain ⟨stack, same⟩ := after_onStack (m := m) OperandStack.pop
    rw [Machine.pop, same] at capacity ⊢
    rw [HooksInside, capacity]
    exact ih

/-- Variables that are hooked. Every hook that is set keeps a reference between 1 and the capacity, so the
position that it names is a word, also where it is reported as not live. As long as the slot is live, and the
capacity is at most `2 ^ 24`, the variable is read by `readHook` and `copy`, which push its value, and written
by a push, `readHook` and `move`, which change its slot and nothing else. -/
theorem hooked_variable_read_and_written (addressable : config.Addressable)
    (reachable : Reachable config m) :
    (∀ i r : Nat, m.hooks[i]? = some (some r) →
      1 ≤ r ∧ r ≤ m.stack.capacity ∧ Word.sub r 1 = .ok (r - 1)) ∧
    ∀ (index : UInt64) (r : Nat), m.hooks[index.toNat]? = some (some r) →
      (m.stack.pointer < r → (Op.readHook index).apply m =
        .error (.invalidAddress .stack (r - 1) m.stack.pointer) m) ∧
      (m.stack.capacity ≤ 2 ^ 24 → r ≤ m.stack.pointer →
        ∃ v, m.stack.live[r - 1]? = some v ∧
          (m.stack.pointer + 1 ≤ m.stack.capacity →
            Runs m [.readHook index, .copy] (m.keeping (v :: m.stack.values))) ∧
          (m.stack.pointer + 2 ≤ m.stack.capacity → ∀ w,
            Runs m [.push w, .readHook index, .move] (m.withSlot (r - 1) w))) := by
  have form := reachable.wellFormed addressable
  have hooks := reachable.hooksInside addressable
  refine ⟨fun i r kept => ?_, fun index r kept => ⟨readHook_refused form kept, fun small live => ?_⟩⟩
  · obtain ⟨positive, most⟩ := hooks i r kept
    exact ⟨positive, most, Word.sub_of_le positive⟩
  obtain ⟨positive, most⟩ := hooks _ r kept
  have named : (Value.ofNat r).toIndex? = some (r - 1 + 1) := by
    rw [Value.toIndex?_ofNat_of_le (most.trans small), Nat.sub_add_cancel positive]
  have inside : r - 1 < m.stack.pointer := by omega
  have found : r - 1 < m.stack.live.length := by
    rwa [OperandStack.live_eq_reverse, List.length_reverse, ← form.pointer]
  have slot := List.getElem?_eq_getElem found
  refine ⟨_, slot, fun room => ?_, fun room w => ?_⟩
  · have read := readHook_pushes form kept live room
    rw [form.pointer] at room
    exact runs_copy form room (.cons read (.nil _)) named slot
  · rw [form.pointer] at room live
    have fits : (w :: m.stack.values).length ≤ m.stack.capacity := Nat.le_of_succ_le room
    -- The hook is read above the value to be written; its slot is live there too.
    have below : (m.keeping (w :: m.stack.values)).hooks[index.toNat]? = some (some r) := kept
    have read := readHook_pushes (form.of_keeping fits) below (Nat.le_succ_of_le live)
      (by rw [keeping_pointer, keeping_capacity fits, List.length_cons]; omega)
    rw [keeping_values, keeping_keeping fits] at read
    exact runs_move form room (.cons read (.nil _)) named inside

/-- The hooked slot is the top one, and the stack has room for just the two operands of `move`. -/
theorem hooked_top_read_and_written :
    let m := [Op.push (.ofNat 42), .hook 0].foldl (fun m op => Action.after op.apply m) (fresh ⟨3, 0, 1⟩)
    m.hooks[0]? = some (some m.stack.pointer) ∧
      Runs m [.readHook 0, .copy] (m.keeping [.ofNat 42, .ofNat 42]) ∧
      Runs m [.push .nan, .readHook 0, .move] (m.withSlot 0 .nan) := by
  intro m
  have addressable : Config.Addressable ⟨3, 0, 1⟩ := ⟨by decide, by decide⟩
  have reachable : Reachable ⟨3, 0, 1⟩ m := Reachable.fresh.operations _
  have kept : m.hooks[(0 : UInt64).toNat]? = some (some 1) := by decide +kernel
  obtain ⟨-, lives⟩ := (hooked_variable_read_and_written addressable reachable).2 0 1 kept
  obtain ⟨v, slot, copied, moved⟩ := lives (by decide +kernel) (by decide +kernel)
  have values : m.stack.values = [.ofNat 42] := by decide +kernel
  have live : m.stack.live[1 - 1]? = some (.ofNat 42) := by decide +kernel
  cases slot.symm.trans live
  have read := copied (by decide +kernel)
  rw [values] at read
  exact ⟨by decide +kernel, read, moved (by decide +kernel) .nan⟩

end StackMachine.Machine
