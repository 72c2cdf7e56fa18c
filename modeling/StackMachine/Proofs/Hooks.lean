import Mathlib
import StackMachine.Proofs.Effect
import StackMachine.Proofs.Sequence

/-! Hooks over a run. A hook keeps the reference that it was last set to, whatever else is asked of the
machine, and reading it compares that reference with the present stack pointer. Nothing records that a
slot has been popped: while the pointer is below the reference the hook is refused, and as soon as enough
values have been pushed again it gives the reference out, though the slot is another one by then. -/
namespace StackMachine.Machine

variable {m next : Machine} {index : UInt64} {requests : List Request} {config : Config}

/-- No request of a run sets a hook: it is not asked for, or it fails. -/
def LeavesHook (index : UInt64) (m : Machine) (requests : List Request) : Prop :=
  ∀ k, requests[k]? = some (Request.apply (.hook index)) →
    ∀ flow next, (Op.hook index).apply (m.serve (requests.take k)) ≠ .ok flow next

theorem after_hook (form : m.WellFormed) {request : Request}
    (spares : request = .apply (.hook index) → ∀ flow next, (Op.hook index).apply m ≠ .ok flow next) :
    (request.after m).hooks[index.toNat]? = m.hooks[index.toNat]? := by
  cases request with
  | apply op =>
    obtain ⟨next, step, run⟩ | ⟨fault, next, run, -, hooks⟩ := apply_ends form op
    · rw [Request.after, Action.after_ok run]
      refine (Op.step_touches form step).2.hooks _ fun other same named => ?_
      subst same
      obtain rfl : other = index := UInt64.toNat_inj.mp named
      exact spares rfl _ _ run
    · rw [Request.after, Action.after_error run, hooks]
  | pop =>
    obtain ⟨stack, same⟩ := after_onStack (m := m) OperandStack.pop
    rw [Request.after, Machine.pop, same]

theorem serve_hook (addressable : config.Addressable) (reachable : Reachable config m)
    (spares : LeavesHook index m requests) :
    (m.serve requests).hooks[index.toNat]? = m.hooks[index.toNat]? := by
  have kept (k : Nat) :
      (m.serve (requests.take k)).hooks[index.toNat]? = m.hooks[index.toNat]? := by
    refine serve_induction (P := fun state => state.hooks[index.toNat]? = m.hooks[index.toNat]?) rfl
      (fun k request found same => ?_) k
    have form := (reachable.serve (requests.take k)).wellFormed addressable
    rw [after_hook form fun sets => spares k (sets ▸ found), same]
  simpa only [List.take_length] using kept requests.length

theorem hook_keeps (form : m.WellFormed) {flow : Flow}
    (set : (Op.hook index).apply m = .ok flow next) :
    next.hooks[index.toNat]? = some (some m.stack.pointer) := by
  obtain ⟨taken, -⟩ := step_of_apply form set
  obtain ⟨checked, -, rfl⟩ := Step.hook_ok taken
  rw [Array.getElem?_setIfInBounds_self_of_lt (checkHook_lt checked), form.pointer]

theorem readHook_step (form : m.WellFormed) {reference : Nat}
    (kept : m.hooks[index.toNat]? = some (some reference)) :
    (Op.readHook index).step m =
      if m.stack.pointer < reference then
        .error (.invalidAddress .stack (reference - 1) m.stack.pointer)
      else Step.push (Value.ofNat reference) m := by
  have inside : index.toNat < m.hooks.size := (Array.getElem?_eq_some_iff.mp kept).1
  have checked : m.checkHook index.toNat = .ok () := if_neg (Nat.not_le.mpr inside)
  rw [Op.step, Step.readHook, checked, kept, form.pointer]
  by_cases below : m.stack.values.length < reference
  · rw [if_pos below]
    exact if_pos below
  · rw [if_neg below]
    exact if_neg below

theorem readHook_refused (form : m.WellFormed) {reference : Nat}
    (kept : m.hooks[index.toNat]? = some (some reference)) (below : m.stack.pointer < reference) :
    (Op.readHook index).apply m =
      .error (.invalidAddress .stack (reference - 1) m.stack.pointer) m := by
  rw [Op.apply_eq form _ (by simp), readHook_step form kept, if_pos below]

theorem readHook_full (form : m.WellFormed) {reference : Nat}
    (kept : m.hooks[index.toNat]? = some (some reference)) (live : reference ≤ m.stack.pointer)
    (full : m.stack.pointer = m.stack.capacity) :
    (Op.readHook index).apply m = .error (.stackOverflow m.stack.capacity) m := by
  have noRoom : ¬m.stack.values.length < m.stack.capacity := by
    rw [← form.pointer]
    exact full.not_lt
  rw [Op.apply_eq form _ (by simp), readHook_step form kept, if_neg (Nat.not_lt.mpr live), Step.push,
    if_neg noRoom]

theorem readHook_pushes (form : m.WellFormed) {reference : Nat}
    (kept : m.hooks[index.toNat]? = some (some reference)) (live : reference ≤ m.stack.pointer)
    (room : m.stack.pointer < m.stack.capacity) :
    (Op.readHook index).apply m = .ok .next (m.keeping (Value.ofNat reference :: m.stack.values)) := by
  rw [form.pointer] at room
  rw [Op.apply_eq form _ (by simp), readHook_step form kept, if_neg (Nat.not_lt.mpr live), Step.push,
    if_pos room]
  rfl

/-- How a hook is read after a run depends on the reference that was kept when it was last set and on the
stack pointer at the moment of reading. It is refused exactly where the pointer is below the reference or
no slot is free; else the reference is pushed, also where the slot that it names was popped in between. -/
theorem hook_refused_iff_pointer_below (addressable : config.Addressable)
    (reachable : Reachable config m) {flow : Flow} (set : (Op.hook index).apply m = .ok flow next)
    (last : LeavesHook index next requests) :
    let reference := m.stack.pointer
    let now := next.serve requests
    ((∃ fault, (Op.readHook index).apply now = .error fault now) ↔
      now.stack.pointer < reference ∨ now.stack.pointer = now.stack.capacity) ∧
    (now.stack.pointer < reference → (Op.readHook index).apply now =
      .error (.invalidAddress .stack (reference - 1) now.stack.pointer) now) ∧
    (reference ≤ now.stack.pointer → now.stack.pointer < now.stack.capacity →
      (Op.readHook index).apply now =
        .ok .next (now.keeping (Value.ofNat reference :: now.stack.values))) := by
  intro reference now
  have before := reachable.wellFormed addressable
  have kept := hook_keeps before set
  have reached : Reachable config next := Action.after_ok set ▸ reachable.apply (.hook index)
  have form : now.WellFormed := (reached.serve requests).wellFormed addressable
  rw [← serve_hook addressable reached last] at kept
  refine ⟨⟨fun refused => ?_, fun why => ?_⟩, readHook_refused form kept, readHook_pushes form kept⟩
  · by_contra neither
    obtain ⟨live, notFull⟩ := not_or.mp neither
    have room : now.stack.pointer < now.stack.capacity :=
      lt_of_le_of_ne (form.pointer ▸ form.fits) notFull
    obtain ⟨fault, failed⟩ := refused
    rw [readHook_pushes form kept (Nat.not_lt.mp live) room] at failed
    cases failed
  · by_cases below : now.stack.pointer < reference
    · exact ⟨_, readHook_refused form kept below⟩
    · exact ⟨_, readHook_full form kept (Nat.not_lt.mp below) (why.resolve_left below)⟩

/-- Right after its slot has been popped, a hook is refused. -/
theorem popped_hook_refused :
    let m := Action.after (Op.push (.ofNat 1)).apply (fresh ⟨2, 0, 1⟩)
    let hooked := Action.after (Op.hook 0).apply m
    let requests := [Request.apply .setReturn]
    m.stack.pointer = 1 ∧ (hooked.serve requests).stack.pointer = 0 ∧
      (Op.readHook 0).apply (hooked.serve requests) =
        .error (.invalidAddress .stack 0 0) (hooked.serve requests) := by
  intro m hooked requests
  have addressable : Config.Addressable ⟨2, 0, 1⟩ := ⟨by decide, by decide⟩
  have reachable : Reachable ⟨2, 0, 1⟩ m := .apply _ .fresh
  have set : (Op.hook 0).apply m = .ok .next hooked :=
    Op.apply_of_step (reachable.wellFormed addressable) (by decide +kernel) (by simp)
  have last : LeavesHook 0 hooked requests := by
    intro k found
    have first : k < 1 := (List.getElem?_eq_some_iff.mp found).1
    interval_cases k
    simp [requests] at found
  obtain ⟨-, refused, -⟩ := hook_refused_iff_pointer_below addressable reachable set last
  have before : m.stack.pointer = 1 := by decide +kernel
  have now : (hooked.serve requests).stack.pointer = 0 := by decide +kernel
  refine ⟨before, now, ?_⟩
  have failed := refused (by rw [before, now]; exact Nat.one_pos)
  rwa [before, now] at failed

/-- The slot that a hook names is popped and pushed again, and the hook is read as if it had not been. -/
theorem hook_read_after_slot_popped :
    let m := Action.after (Op.push (.ofNat 1)).apply (fresh ⟨2, 0, 1⟩)
    let hooked := Action.after (Op.hook 0).apply m
    let requests := [Request.apply .setReturn, .apply (.push (.ofNat 2))]
    Reachable ⟨2, 0, 1⟩ m ∧ (Op.hook 0).apply m = .ok .next hooked ∧
      (∀ request ∈ requests, request ≠ .apply (.hook 0)) ∧
      (hooked.serve (requests.take 1)).stack.pointer < m.stack.pointer ∧
      ∃ next, (Op.readHook 0).apply (hooked.serve requests) = .ok .next next ∧
        next.stack.live = [.ofNat 2, .ofNat 1] := by
  intro m hooked requests
  have addressable : Config.Addressable ⟨2, 0, 1⟩ := ⟨by decide, by decide⟩
  have reachable : Reachable ⟨2, 0, 1⟩ m := .apply _ .fresh
  have set : (Op.hook 0).apply m = .ok .next hooked :=
    Op.apply_of_step (reachable.wellFormed addressable) (by decide +kernel) (by simp)
  have form := ((reachable.apply (.hook 0)).serve requests).wellFormed addressable
  have kept : (hooked.serve requests).hooks[(0 : UInt64).toNat]? = some (some 1) := by decide +kernel
  refine ⟨reachable, set, by simp [requests], by decide +kernel, _,
    readHook_pushes form kept (by decide +kernel) (by decide +kernel), ?_⟩
  decide +kernel

end StackMachine.Machine
