import Mathlib
import StackMachine.Proofs.Effect

/-! What operations report. `Op.Reports` lists the faults that the checks of a step can end with; a step
ends with no others. A fault that is about an address gives an index and the end of the range that would
have been valid, and the checks are such that the index lies outside that range, with one exception:
`leave` names the place where it looks for the link of the frame beside the base pointer, on whichever
side of it that place is. With more locals than the frame has, the place is a live slot. -/
namespace StackMachine

def FailsWith {α : Type} (P : Fault → Prop) (x : Except Fault α) : Prop :=
  ∀ fault, x = .error fault → P fault

namespace FailsWith

variable {α β : Type} {P : Fault → Prop}

theorem ok (a : α) : FailsWith P (.ok a : Except Fault α) := nofun

theorem error {fault : Fault} (holds : P fault) : FailsWith P (.error fault : Except Fault α) := by
  intro other same
  cases same
  exact holds

theorem bind {x : Except Fault α} {f : α → Except Fault β} (first : FailsWith P x)
    (rest : ∀ a, x = .ok a → FailsWith P (f a)) : FailsWith P (x >>= f) := by
  cases x with
  | ok a => exact rest a rfl
  | error fault => exact error (first fault rfl)

theorem map {x : Except Fault α} (first : FailsWith P x) (f : α → β) : FailsWith P (x.map f) := by
  cases x with
  | ok a => exact ok (f a)
  | error fault => exact error (first fault rfl)

theorem ite {p : Prop} [Decidable p] {x y : Except Fault α} (yes : p → FailsWith P x)
    (no : ¬p → FailsWith P y) : FailsWith P (if p then x else y) := by
  split
  case isTrue holds => exact yes holds
  case isFalse fails => exact no fails

end FailsWith

/-- The faults that the machine reports and that are about no address. -/
def Fault.isPlain : Fault → Bool
  | .invalidAddress .. | .trap _ => false
  | _ => true

inductive Op.Reports (op : Op) (m : Machine) : Fault → Prop
  | plain {fault : Fault} (about : fault.isPlain = true) : Reports op m fault
  | range {address length : Nat}
      (outside : ¬(address + length ≤ m.heap.size ∧ address + length < Word.limit)) :
      Reports op m (.invalidAddress .heap (Word.saturatingAdd address length - 1) m.heap.size)
  | position {space : Space} {index limit : Nat} (outside : limit ≤ index) :
      Reports op m (.invalidAddress space index limit)
  | frame {args locals : UInt64} (leaves : op = .leave args locals)
      (required : Word.saturatingAdd (Word.saturatingAdd locals.toNat 2) args.toNat ≤ m.stack.pointer)
      (elsewhere : m.stack.values.length - locals.toNat - 1 + 1 ≠ m.basePointer) :
      Reports op m (.invalidAddress .stack (m.stack.values.length - locals.toNat - 1) m.basePointer)

/-! The checks of the steps. -/

section Checks

variable {op : Op} {m : Machine}

theorem Value.expectIndex_reports (v : Value) (operation : String) :
    FailsWith (op.Reports m) (v.expectIndex operation) := by
  rw [expectIndex]
  split
  · exact .ok _
  · exact .error (.plain rfl)

theorem Value.slotBytes_reports (slots : Nat) (operation : String) :
    FailsWith (op.Reports m) (slotBytes slots operation) := by
  rw [slotBytes]
  split
  · exact .ok _
  · exact .error (.plain rfl)

theorem OperandStack.require_reports (s : OperandStack) (operation : String) (required : Nat) :
    FailsWith (op.Reports m) (s.require operation required) :=
  .ite (fun _ => .error (.plain rfl)) fun _ => .ok _

theorem Heap.checkRange_reports (address length : Nat) :
    FailsWith (op.Reports m) (m.heap.checkRange address length) := by
  rw [checkRange_eq]
  exact .ite (fun _ => .ok _) fun outside => .error (.range outside)

theorem Heap.allocation_reports (h : Heap) (size : Nat) :
    FailsWith (op.Reports m) (h.allocation size) := by
  rw [allocation]
  refine .ite (fun _ => .ok _) fun _ => ?_
  split
  · exact .error (.plain rfl)
  · exact .ok _

theorem Heap.release_reports (h : Heap) (address size : Nat) :
    FailsWith (op.Reports m) (h.release address size) :=
  .ite (fun _ => .ok _) fun _ => .ite (fun _ => .ok _) fun _ => .error (.plain rfl)

theorem BinaryOperator.apply_reports (operator : BinaryOperator) (a b : Value) :
    FailsWith (op.Reports m) (operator.apply a b) := by
  cases operator with
  | add | subtract | multiply => exact .ok _
  | divide => exact .ite (fun _ => .error (.plain rfl)) fun _ => .ok _
  | modulo =>
    rw [apply]
    split
    · exact .ok _
    · exact .error (.plain rfl)

theorem Numeral.read_reports (kind : Kind) (codes : List Value) :
    FailsWith (op.Reports m) (read kind codes) := by
  rw [read]
  split
  · exact .ok _
  · exact .error (.plain rfl)

theorem Machine.resolve_reports (reference : Value) (live : Nat) (operation : String) :
    FailsWith (op.Reports m) (resolve reference live operation) := by
  rw [resolve_eq]
  exact (reference.expectIndex_reports operation).bind fun r _ =>
    .ite (fun _ => .error (.plain rfl)) fun _ =>
      .ite (fun behind => .error (.position (Nat.le_sub_one_of_lt behind))) fun _ => .ok _

theorem Machine.checkHook_reports (index : Nat) : FailsWith (op.Reports m) (m.checkHook index) :=
  .ite (fun outside => .error (.position outside)) fun _ => .ok _

end Checks

namespace Step

variable {op : Op} {m : Machine}

theorem push_reports (v : Value) : FailsWith (op.Reports m) (push v m) :=
  .ite (fun _ => .ok _) fun _ => .error (.plain rfl)

theorem binary_reports (operator : BinaryOperator) : FailsWith (op.Reports m) (binary operator m) := by
  rw [binary]
  split
  · exact (operator.apply_reports _ _).bind fun _ _ => .ok _
  · exact .error (.plain rfl)

theorem replace_reports (f : Value → Value) : FailsWith (op.Reports m) (replace f m) := by
  rw [replace]
  split
  · exact .ok _
  · exact .error (.plain rfl)

theorem allocate_reports : FailsWith (op.Reports m) (allocate m) := by
  rw [allocate]
  split
  · exact (Value.expectIndex_reports _ _).bind fun _ _ => (Value.slotBytes_reports _ _).bind fun _ _ =>
      (m.heap.allocation_reports _).bind fun _ _ => .ok _
  · exact .error (.plain rfl)

theorem free_reports : FailsWith (op.Reports m) (free m) := by
  rw [free]
  split
  · exact (Value.expectIndex_reports _ _).bind fun _ _ => (Value.expectIndex_reports _ _).bind fun _ _ =>
      (Value.slotBytes_reports _ _).bind fun _ _ => (m.heap.release_reports _ _).bind fun _ _ => .ok _
  · exact .error (.plain rfl)

theorem store_reports (slots : Nat) : FailsWith (op.Reports m) (store slots m) :=
  (m.stack.require_reports _ _).bind fun _ _ => (Value.expectIndex_reports _ _).bind fun _ _ =>
    (Value.slotBytes_reports _ _).bind fun _ _ => (Heap.checkRange_reports _ _).bind fun _ _ => .ok _

theorem load_reports (slots : Nat) : FailsWith (op.Reports m) (load slots m) := by
  rw [load]
  split
  · exact (Value.expectIndex_reports _ _).bind fun _ _ => (Value.slotBytes_reports _ _).bind fun _ _ =>
      (Heap.checkRange_reports _ _).bind fun _ _ => .ite (fun _ => .error (.plain rfl)) fun _ => .ok _
  · exact .error (.plain rfl)

theorem copy_reports : FailsWith (op.Reports m) (copy m) := by
  rw [copy]
  split
  · exact (Machine.resolve_reports _ _ _).bind fun _ _ => .ok _
  · exact .error (.plain rfl)

theorem move_reports : FailsWith (op.Reports m) (move m) := by
  rw [move]
  split
  · exact (Machine.resolve_reports _ _ _).bind fun _ _ => .ok _
  · exact .error (.plain rfl)

theorem hook_reports (index : Nat) : FailsWith (op.Reports m) (hook index m) :=
  (Machine.checkHook_reports index).bind fun _ _ => (m.stack.require_reports _ _).bind fun _ _ => .ok _

theorem readHook_reports (index : Nat) : FailsWith (op.Reports m) (readHook index m) := by
  refine (Machine.checkHook_reports index).bind fun _ _ => ?_
  split
  · exact .ite (fun behind => .error (.position (Nat.le_sub_one_of_lt behind))) fun _ => push_reports _
  · exact .error (.plain rfl)

theorem leave_reports (args locals : UInt64) :
    FailsWith ((Op.leave args locals).Reports m) (leave args.toNat locals.toNat m) :=
  (m.stack.require_reports _ _).bind fun _ required =>
    .ite (fun elsewhere => .error (.frame rfl (OperandStack.require_ok required) elsewhere)) fun _ =>
      (Value.expectIndex_reports _ _).bind fun _ _ =>
        .ite (fun behind => .error (.position behind.le)) fun _ => .ok _

theorem setReturn_reports : FailsWith (op.Reports m) (setReturn m) := by
  rw [setReturn]
  split
  · exact .ok _
  · exact .error (.plain rfl)

theorem parseText_reports (kind : Numeral.Kind) (operation : String) :
    FailsWith (op.Reports m) (parseText kind operation m) := by
  rw [parseText]
  split
  · exact (Value.expectIndex_reports _ _).bind fun _ _ => (Value.expectIndex_reports _ _).bind fun _ _ =>
      (Value.slotBytes_reports _ _).bind fun _ _ => (Heap.checkRange_reports _ _).bind fun _ _ =>
        (Numeral.read_reports _ _).bind fun _ _ => .ok _
  · exact .error (.plain rfl)

theorem formatText_reports (kind : Numeral.Kind) (operation : String) :
    FailsWith (op.Reports m) (formatText kind operation m) := by
  rw [formatText]
  split
  · exact (m.heap.allocation_reports _).bind fun _ _ => .ok _
  · exact .error (.plain rfl)

end Step

namespace Op

variable {op : Op} {m : Machine}

theorem step_reports (op : Op) (m : Machine) : FailsWith (op.Reports m) (op.step m) := by
  cases op with
  | push v => exact Step.push_reports v
  | binary operator => exact Step.binary_reports operator
  | sign => exact Step.replace_reports _
  | allocate => exact Step.allocate_reports.map _
  | free => exact Step.free_reports
  | store slots => exact Step.store_reports _
  | load slots => exact Step.load_reports _
  | copy => exact Step.copy_reports
  | move => exact Step.move_reports
  | hook index => exact Step.hook_reports _
  | readHook index => exact Step.readHook_reports _
  | loadBasePointer => exact Step.push_reports _
  | enter => exact (Step.push_reports _).bind fun _ _ => .ok _
  | leave args locals => exact Step.leave_reports args locals
  | setReturn => exact Step.setReturn_reports
  | getReturn => exact Step.push_reports _
  | textToInteger => exact (Step.parseText_reports _ _).map _
  | textToFloat => exact (Step.parseText_reports _ _).map _
  | integerToText => exact (Step.formatText_reports _ _).map _
  | floatToText => exact (Step.formatText_reports _ _).map _
  | floatToInteger => exact Step.replace_reports _
  | integerToFloat => exact (m.stack.require_reports _ _).bind fun _ _ => .ok _
  | halt => exact .ok _

/-- `leave` is asked to drop more locals than lie behind the base pointer, though the stack has as many
values as the call would take. -/
def Overreaches (op : Op) (m : Machine) : Prop :=
  ∃ args locals, op = .leave args locals ∧ args.toNat + locals.toNat + 2 ≤ m.stack.pointer ∧
    m.stack.pointer < m.basePointer + locals.toNat

/-- Only a `leave` that overreaches reports an index that is in the range it gives. -/
theorem Reports.overreaches (form : m.WellFormed) {space : Space} {index limit : Nat}
    (reported : op.Reports m (.invalidAddress space index limit)) (inside : index < limit) :
    op.Overreaches m := by
  cases reported with
  | plain about => cases about
  | range outside =>
    -- Also where the end of the range is no word, the last word lies outside the arena.
    have size := form.size
    simp only [Word.saturatingAdd, Word.last, Word.limit] at inside outside
    omega
  | position outside => omega
  | @frame args locals leaves required elsewhere =>
    have enough := form.leave_required.mp required
    refine ⟨args, locals, leaves, ?_, ?_⟩ <;> rw [form.pointer] <;> omega

theorem Overreaches.step (form : m.WellFormed) (overreaches : op.Overreaches m) :
    ∃ index, op.step m = .error (.invalidAddress .stack index m.basePointer) ∧
      index < m.basePointer := by
  obtain ⟨args, locals, rfl, enough, beyond⟩ := overreaches
  rw [form.pointer] at enough beyond
  have required : m.stack.require "end_frame"
      (Word.saturatingAdd (Word.saturatingAdd locals.toNat 2) args.toNat) = .ok () :=
    if_neg (Nat.not_lt.mpr (form.leave_required.mpr (by omega)))
  have elsewhere : m.stack.values.length - locals.toNat - 1 + 1 ≠ m.basePointer := by omega
  refine ⟨m.stack.values.length - locals.toNat - 1, ?_, by omega⟩
  rw [Op.step, Step.leave, required]
  exact if_pos elsewhere

end Op

theorem OperandStack.peek_outside {s : OperandStack} {i index limit : Nat} {space : Space}
    (failed : s.peek i = .error (.invalidAddress space index limit)) : limit ≤ index := by
  rw [peek, checkLive] at failed
  split at failed
  case isTrue dead =>
    cases failed
    exact dead
  case isFalse =>
    cases found : Cells.read s.slots i with
    | ok v => rw [found] at failed; cases failed
    | error cause => rw [found] at failed; cases failed

namespace Machine

variable {m : Machine} {config : Config}

/-- A report that an address is outside a range gives an index outside that range, unless a `leave`
overreaches; that is the one way in which an operation can report an index that lies inside. Looking at
a slot always names an index outside. -/
theorem address_reported_inside_iff_overreaching (addressable : config.Addressable)
    (reachable : Reachable config m) :
    (∀ op : Op, (∃ space index limit next,
        op.apply m = .error (.invalidAddress space index limit) next ∧ index < limit) ↔
      op.Overreaches m) ∧
    ∀ i space index limit, m.stack.peek i = .error (.invalidAddress space index limit) →
      limit ≤ index := by
  have form := reachable.wellFormed addressable
  refine ⟨fun op => ⟨?_, fun overreaches => ?_⟩, fun i space index limit => OperandStack.peek_outside⟩
  · rintro ⟨space, index, limit, next, failed, inside⟩
    obtain ⟨-, run⟩ | ⟨-, -, run | ⟨-, _, run, -⟩⟩ := apply_cases form op
    · rw [run] at failed
      cases step : op.step m with
      | ok taken => rw [step] at failed; cases failed
      | error fault =>
        rw [step] at failed
        cases failed
        exact (op.step_reports m _ step).overreaches form inside
    · rw [run] at failed
      cases failed
    · rw [run] at failed
      cases failed
  · obtain ⟨index, step, inside⟩ := overreaches.step form
    have leaves : op = .enter → m.frameDepth < Word.last := by
      obtain ⟨args, locals, rfl, -⟩ := overreaches
      exact nofun
    exact ⟨.stack, index, m.basePointer, m, by rw [Op.apply_eq form op leaves, step], inside⟩

/-- In a frame without locals, `leave` for one local overreaches; a look behind the stack names its end. -/
theorem leave_for_missing_local_overreaches :
    let m := [Op.push (.ofNat 1), .push (.ofNat 1), .enter].foldl
      (fun m op => Action.after op.apply m) (fresh ⟨4, 0, 0⟩)
    (Op.leave 0 1).Overreaches m ∧
      (∃ space index limit next,
        (Op.leave 0 1).apply m = .error (.invalidAddress space index limit) next ∧ index < limit) ∧
      m.stack.peek 3 = .error (.invalidAddress .stack 3 3) ∧ 3 ≤ 3 := by
  intro m
  have addressable : Config.Addressable ⟨4, 0, 0⟩ := ⟨by decide, by decide⟩
  have reachable : Reachable ⟨4, 0, 0⟩ m := Reachable.fresh.operations _
  obtain ⟨inside, outside⟩ := address_reported_inside_iff_overreaching addressable reachable
  have overreaches : (Op.leave 0 1).Overreaches m :=
    ⟨0, 1, rfl, by decide +kernel, by decide +kernel⟩
  have failed : m.stack.peek 3 = .error (.invalidAddress .stack 3 3) := by decide +kernel
  exact ⟨overreaches, (inside _).mpr overreaches, failed, outside 3 .stack 3 3 failed⟩

/-- The slot that `leave` calls invalid here is live, and in the range that the text gives. -/
theorem leave_reports_live_slot :
    let m := [Op.push (.ofNat 1), .push (.ofNat 1), .enter].foldl
      (fun m op => Action.after op.apply m) (fresh ⟨4, 0, 0⟩)
    Reachable ⟨4, 0, 0⟩ m ∧ (Op.leave 0 1).apply m = .error (.invalidAddress .stack 1 3) m ∧
      (Fault.invalidAddress .stack 1 3).message = "invalid stack address 1 (valid range 0..3)" ∧
      ¬3 ≤ 1 := by
  refine ⟨Reachable.fresh.operations _, ?failed, by decide +kernel, by decide⟩
  case failed => cbv

end Machine
end StackMachine
