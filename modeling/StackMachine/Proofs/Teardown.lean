import Mathlib
import StackMachine.Proofs.Calls

/-! Closing a frame. `leave` reads the base pointer of the caller off the link and compares it with the
position of the link itself; then it drops the return slot and as many arguments as it is told. So what it
restores lies below the base pointer that it had, but whether it still is a position of the stack depends on
the count of arguments: between the two base pointers there has to be room for the arguments, the return slot
and the link. Nothing checks that. Where there is no such room, the chain of frames is lost, and no frame can
be closed before the stack has grown again. -/
namespace StackMachine.Machine

variable {m next : Machine} {args locals : UInt64} {flow : Flow} {config : Config}

/-- What `leave` asks for: values enough, a base pointer right below the locals, and under it a link to a
base pointer further down. -/
structure Closable (m : Machine) (args locals saved : Nat) : Prop where
  enough : locals + 2 + args ≤ m.stack.pointer
  base : m.basePointer + locals = m.stack.pointer
  link : (m.stack.live[m.basePointer - 1]?).bind Value.toIndex? = some saved
  outwards : saved < m.basePointer

theorem WellFormed.link_slot (form : m.WellFormed) {locals : Nat}
    (base : m.basePointer + locals = m.stack.pointer) (positive : 0 < m.basePointer) :
    m.stack.live[m.basePointer - 1]? = m.stack.values[locals]? := by
  rw [form.pointer] at base
  rw [OperandStack.live_eq_reverse, List.getElem?_reverse (by omega)]
  congr 1
  omega

def unwound (m : Machine) (args locals saved : Nat) : Machine :=
  { m.keeping (m.stack.values.drop (locals + 2 + args)) with
    basePointer := saved, frameDepth := m.frameDepth - 1 }

theorem Closable.unwound_pointer (form : m.WellFormed) {args locals saved : Nat}
    (closable : m.Closable args locals saved) :
    (m.unwound args locals saved).stack.pointer + args + 2 = m.basePointer := by
  obtain ⟨enough, base, -, -⟩ := closable
  rw [form.pointer] at enough base
  have height : (m.unwound args locals saved).stack.pointer =
      (m.stack.values.drop (locals + 2 + args)).length := rfl
  rw [height, List.length_drop]
  omega

theorem closable_of_leave (form : m.WellFormed) (closed : (Op.leave args locals).apply m = .ok flow next) :
    m.Closable args.toNat locals.toNat next.basePointer ∧
      next = m.unwound args.toNat locals.toNat next.basePointer := by
  obtain ⟨saved, required, base, named, outwards, rfl⟩ := Step.leave_ok (step_of_apply form closed).1
  have enough := form.leave_required.mp required
  have below : m.basePointer + locals.toNat = m.stack.pointer := by
    rw [form.pointer]
    omega
  refine ⟨⟨form.pointer ▸ enough, below, ?_, base ▸ Nat.lt_succ_of_le outwards⟩, rfl⟩
  have inside : locals.toNat < m.stack.values.length := by omega
  rw [form.link_slot below (by omega), List.getElem?_eq_getElem inside, Option.bind_some,
    ← List.getD_eq_getElem _ .zero inside]
  exact Value.toIndex?_of_expectIndex named

theorem Closable.leave (form : m.WellFormed) {saved : Nat}
    (closable : m.Closable args.toNat locals.toNat saved) :
    (Op.leave args locals).apply m = .ok .next (m.unwound args.toNat locals.toNat saved) := by
  obtain ⟨enough, base, link, outwards⟩ := closable
  rw [form.link_slot base (by omega)] at link
  rw [form.pointer] at enough base
  obtain ⟨v, found, named⟩ := Option.bind_eq_some_iff.mp link
  obtain ⟨inside, rfl⟩ := List.getElem?_eq_some_iff.mp found
  have live : m.stack.values = m.stack.values.take locals.toNat ++
      m.stack.values[locals.toNat] :: m.stack.values.drop (locals.toNat + 1) := by
    rw [← List.drop_eq_getElem_cons inside, List.take_append_drop]
  have closed := leave_apply form args locals named live (by rw [List.length_take]; omega)
    (by rw [List.length_drop]; omega) (by rw [List.length_drop]; omega) (by rw [List.length_drop]; omega)
  have dropped : locals.toNat + 1 + (args.toNat + 1) = locals.toNat + 2 + args.toNat := by omega
  rw [closed, List.drop_drop, dropped, unwound]

theorem frameLinks_of_above (above : m.stack.pointer < m.basePointer) : m.frameLinks = [] := by
  rw [frameLinks, linksFrom, if_neg (fun chained => Nat.not_le.mpr above chained.2)]

theorem leave_refused_of_above (form : m.WellFormed) (above : m.stack.pointer < m.basePointer)
    (args locals : UInt64) : ∃ fault, (Op.leave args locals).apply m = .error fault m := by
  have run := Op.apply_eq form (.leave args locals) (by simp)
  cases taken : (Op.leave args locals).step m with
  | ok next =>
    rw [taken] at run
    have base := (closable_of_leave form run).1.base
    omega
  | error fault =>
    rw [taken] at run
    exact ⟨fault, run⟩

/-- What closing a frame restores. It succeeds exactly if the link under the locals names a base pointer
further down, which it then restores. That is a position of the stack that remains exactly if the arguments,
the return slot and the link fit between the two base pointers, which is not asked for. Where they do not
fit, the chain of frames is lost, and no frame can be closed any more as things stand. -/
theorem restored_base_valid_iff_frame_covered (addressable : config.Addressable)
    (reachable : Reachable config m) (args locals : UInt64) :
    ((∃ next, (Op.leave args locals).apply m = .ok .next next) ↔
      ∃ saved, m.Closable args.toNat locals.toNat saved) ∧
    ∀ flow next, (Op.leave args locals).apply m = .ok flow next →
      m.Closable args.toNat locals.toNat next.basePointer ∧
      next.stack.pointer + args.toNat + 2 = m.basePointer ∧
      (next.basePointer ≤ next.stack.pointer ↔ next.basePointer + args.toNat + 2 ≤ m.basePointer) ∧
      (next.stack.pointer < next.basePointer →
        next.frameLinks = [] ∧
          ∀ args locals, ∃ fault, (Op.leave args locals).apply next = .error fault next) := by
  have form := reachable.wellFormed addressable
  refine ⟨⟨?_, ?_⟩, fun flow next closed => ?_⟩
  · rintro ⟨next, closed⟩
    exact ⟨_, (closable_of_leave form closed).1⟩
  · rintro ⟨saved, closable⟩
    exact ⟨_, closable.leave form⟩
  · obtain ⟨closable, same⟩ := closable_of_leave form closed
    have pointer := closable.unwound_pointer form
    rw [← same] at pointer
    refine ⟨closable, pointer, by omega, fun above => ⟨frameLinks_of_above above, ?_⟩⟩
    exact leave_refused_of_above (form.of_apply closed) above

/-- A call that drops the one argument that it was given leaves the base pointer on the stack. -/
theorem covered_frame_restores_base :
    let m := [Op.enter, .push (.ofNat 3), .push (.ofNat 1), .enter, .push (.ofNat 7)].foldl
      (fun m op => Action.after op.apply m) (fresh ⟨8, 0, 0⟩)
    m.basePointer = 4 ∧ ∃ next, (Op.leave 1 1).apply m = .ok .next next ∧ next.basePointer = 1 ∧
      next.basePointer ≤ next.stack.pointer := by
  intro m
  have addressable : Config.Addressable ⟨8, 0, 0⟩ := ⟨by decide, by decide⟩
  have reachable : Reachable ⟨8, 0, 0⟩ m := Reachable.fresh.operations _
  have base : m.basePointer = 4 := by decide +kernel
  have closed : (Op.leave 1 1).apply m = .ok .next (Action.after (Op.leave 1 1).apply m) :=
    Op.apply_of_step (reachable.wellFormed addressable) (by decide +kernel) (by simp)
  have restored : (Action.after (Op.leave 1 1).apply m).basePointer = 1 := by decide +kernel
  obtain ⟨-, -, valid, -⟩ :=
    (restored_base_valid_iff_frame_covered addressable reachable 1 1).2 _ _ closed
  exact ⟨base, _, closed, restored, valid.mpr (by rw [base, restored]; decide)⟩

/-- A call that drops one argument more than it was given takes the link of its caller with it. -/
theorem base_restored_above_stack :
    let m := [Op.enter, .push (.ofNat 3), .push (.ofNat 1), .enter].foldl
      (fun m op => Action.after op.apply m) (fresh ⟨4, 0, 0⟩)
    Reachable ⟨4, 0, 0⟩ m ∧ ∃ next, (Op.leave 2 0).apply m = .ok .next next ∧
      next.basePointer = 1 ∧ next.stack.pointer = 0 ∧ next.frameDepth = 1 := by
  intro m
  have addressable : Config.Addressable ⟨4, 0, 0⟩ := ⟨by decide, by decide⟩
  have reachable : Reachable ⟨4, 0, 0⟩ m := Reachable.fresh.operations _
  have closed : (Op.leave 2 0).apply m = .ok .next (Action.after (Op.leave 2 0).apply m) :=
    Op.apply_of_step (reachable.wellFormed addressable) (by decide +kernel) (by simp)
  exact ⟨reachable, _, closed, by decide +kernel, by decide +kernel, by decide +kernel⟩

end StackMachine.Machine
