import Mathlib
import StackMachine.Proofs.Calls
import StackMachine.Proofs.Nearest
import StackMachine.Proofs.References

/-! Variables of a frame. Its arguments lie under the return slot and the link, its locals above them, and the
base pointer is the position right above the link. So a program reaches a variable from the base pointer and a
distance that it knows, by a sum or a difference. Both are computed with values; on a stack of at most `2 ^ 24`
slots every position is carried exactly, and so is what is computed from it. The reference that comes out is
one more than the position of the variable, and `copy` and `move` take it as any other. -/
namespace StackMachine

namespace Value

variable {a b : Nat}

theorem add_ofNat (small : a + b ≤ 2 ^ 24) : (ofNat a).add (ofNat b) = ofNat (a + b) := by
  have left := isRatio_number_ofNat (Format.binary32_has_of_le (Nat.le_of_add_right_le small))
  have right := isRatio_number_ofNat (Format.binary32_has_of_le (Nat.le_of_add_left_le small))
  have sum := left.add right
  rw [← Nat.cast_add] at sum
  exact ofNumber_congr sum (Number.isRatio_ofNat _) false

theorem sub_ofNat (small : a ≤ 2 ^ 24) (below : b ≤ a) : (ofNat a).sub (ofNat b) = ofNat (a - b) := by
  have left := isRatio_number_ofNat (Format.binary32_has_of_le small)
  have right := isRatio_number_ofNat (Format.binary32_has_of_le (below.trans small))
  have difference := left.sub right (by exact_mod_cast below)
  rw [← Nat.cast_sub below] at difference
  exact ofNumber_congr difference (Number.isRatio_ofNat _) false

end Value

namespace Machine

variable {m now : Machine} {below args locals : List Value} {slot link reference v w : Value} {index k : Nat}
  {op : BinaryOperator} {config : Config}

structure Framed (m : Machine) (below args : List Value) (slot link : Value) (locals : List Value) : Prop where
  live : m.stack.live = below ++ args ++ [slot, link] ++ locals
  base : m.basePointer = below.length + args.length + 2

theorem framed_of_open (form : m.WellFormed) (opened : Runs m ((args ++ [slot]).map .push ++ [.enter]) now) :
    now.Framed m.stack.live args slot (.ofNat m.basePointer) [] := by
  obtain ⟨header, pushes, enters⟩ := opened.of_append
  have room := room_of_pushes form pushes
  cases eq_of_pushes form pushes
  cases enters with
  | cons applied later =>
    cases later
    have fits : ((args ++ [slot]).reverse ++ m.stack.values).length ≤ m.stack.capacity := by
      rw [List.length_append, List.length_reverse]
      omega
    obtain ⟨-, same⟩ := Step.enter_ok (step_of_apply (form.of_keeping fits) applied).1
    change now = m.called args slot at same
    subst same
    refine ⟨?_, ?_⟩
    · rw [OperandStack.live_eq_reverse, OperandStack.live_eq_reverse, called_values]
      simp
    · simp only [called, entered, keeping_values, OperandStack.live_eq_reverse, List.length_append,
        List.length_reverse, List.length_singleton]
      omega

theorem Framed.push (framed : m.Framed below args slot link locals) (form : m.WellFormed) {values : List Value}
    (pushed : Runs m (values.map .push) now) : now.Framed below args slot link (locals ++ values) := by
  cases eq_of_pushes form pushed
  refine ⟨?_, framed.base⟩
  rw [OperandStack.live_eq_reverse, keeping_values, List.reverse_append, List.reverse_reverse,
    ← OperandStack.live_eq_reverse, framed.live, List.append_assoc]

theorem runs_reference (form : m.WellFormed) (room : m.stack.values.length + 2 ≤ m.stack.capacity)
    (computed : op.apply (.ofNat m.basePointer) (.ofNat k) = .ok reference) :
    Runs m [.loadBasePointer, .push (.ofNat k), .binary op] (m.keeping (reference :: m.stack.values)) := by
  have free : m.stack.values.length < m.stack.capacity := Nat.lt_of_succ_lt room
  have based : (Value.ofNat m.basePointer :: m.stack.values).length ≤ m.stack.capacity := free
  have both : (Value.ofNat k :: Value.ofNat m.basePointer :: m.stack.values).length ≤ m.stack.capacity := room
  have loaded : Op.loadBasePointer.apply m = .ok .next (m.keeping (.ofNat m.basePointer :: m.stack.values)) :=
    Op.apply_of_step form (if_pos free) (by simp)
  have pushed := push_apply (form.of_keeping based) (by
    rw [keeping_values, keeping_capacity based]
    exact room) (.ofNat k)
  rw [keeping_values, keeping_keeping based] at pushed
  have live : (m.keeping (.ofNat k :: .ofNat m.basePointer :: m.stack.values)).stack.live =
      m.stack.values.reverse ++ [.ofNat m.basePointer, .ofNat k] := by
    rw [OperandStack.live_eq_reverse, keeping_values]
    simp
  have operated := binary_apply (form.of_keeping both) live op
  rw [computed] at operated
  dsimp only at operated
  rw [keeping_keeping both, List.reverse_reverse] at operated
  exact .cons loaded (.cons pushed (.cons operated (.nil _)))

theorem runs_read (form : m.WellFormed) (small : m.stack.capacity ≤ 2 ^ 24)
    (room : m.stack.pointer + 2 ≤ m.stack.capacity)
    (computed : op.apply (.ofNat m.basePointer) (.ofNat k) = .ok (.ofNat (index + 1)))
    (found : m.stack.live[index]? = some v) :
    Runs m [.loadBasePointer, .push (.ofNat k), .binary op, .copy] (m.keeping (v :: m.stack.values)) := by
  have inside : index < m.stack.pointer := by
    rw [← form.live_length]
    exact (List.getElem?_eq_some_iff.mp found).1
  have named := Value.toIndex?_ofNat_of_le (n := index + 1) (by omega)
  rw [form.pointer] at room
  exact runs_copy form (Nat.lt_of_succ_lt room) (runs_reference form room computed) named found

theorem runs_write (form : m.WellFormed) (small : m.stack.capacity ≤ 2 ^ 24)
    (room : m.stack.pointer + 3 ≤ m.stack.capacity)
    (computed : op.apply (.ofNat m.basePointer) (.ofNat k) = .ok (.ofNat (index + 1)))
    (inside : index < m.stack.pointer) (w : Value) :
    Runs m [.push w, .loadBasePointer, .push (.ofNat k), .binary op, .move] (m.withSlot index w) := by
  have named := Value.toIndex?_ofNat_of_le (n := index + 1) (by omega)
  rw [form.pointer] at room
  have fits : (w :: m.stack.values).length ≤ m.stack.capacity := by
    rw [List.length_cons]
    omega
  -- The reference is computed above the value to be written, by the same base pointer.
  have pushed : Runs (m.keeping (w :: m.stack.values)) [.loadBasePointer, .push (.ofNat k), .binary op] _ :=
    runs_reference (form.of_keeping fits) (by
      rw [keeping_values, keeping_capacity fits, List.length_cons]
      omega) computed
  rw [keeping_values, keeping_keeping fits] at pushed
  exact runs_move form (Nat.le_of_succ_le room) pushed named inside

theorem withSlot_live (form : m.WellFormed) (inside : index < m.stack.pointer) (w : Value) :
    (m.withSlot index w).stack.live = m.stack.live.set index w := by
  rw [form.pointer] at inside
  rw [← keeping_set form inside, OperandStack.live_eq_reverse, keeping_values, List.reverse_reverse,
    OperandStack.live_eq_reverse]

namespace Framed

theorem front_length (below args : List Value) (slot link : Value) :
    (below ++ args ++ [slot, link]).length = below.length + args.length + 2 := by
  rw [List.length_append, List.length_append, List.length_cons, List.length_singleton]

theorem height (framed : m.Framed below args slot link locals) (form : m.WellFormed) :
    m.stack.pointer = below.length + args.length + 2 + locals.length := by
  rw [form.pointer, ← List.length_reverse, ← OperandStack.live_eq_reverse, framed.live, List.length_append,
    front_length]

theorem fits (framed : m.Framed below args slot link locals) (form : m.WellFormed) :
    below.length + args.length + 2 + locals.length ≤ m.stack.capacity := by
  rw [← framed.height form, form.pointer]
  exact form.fits

theorem argument_slot (framed : m.Framed below args slot link locals) {i : Nat} (inside : i < args.length) :
    m.stack.live[below.length + i]? = args[i]? := by
  rw [framed.live, List.append_assoc, List.append_assoc, List.getElem?_append_right (Nat.le_add_right _ _),
    Nat.add_sub_cancel_left, List.getElem?_append_left inside]

theorem local_slot (framed : m.Framed below args slot link locals) (j : Nat) :
    m.stack.live[below.length + args.length + 2 + j]? = locals[j]? := by
  rw [framed.live, ← front_length below args slot link, List.getElem?_append_right (Nat.le_add_right _ _),
    Nat.add_sub_cancel_left]

/-- The first argument is the furthest from the base pointer, with the return slot and the link between. -/
theorem argument_reference (framed : m.Framed below args slot link locals) (form : m.WellFormed)
    (small : m.stack.capacity ≤ 2 ^ 24) {i : Nat} (inside : i < args.length) :
    BinaryOperator.subtract.apply (.ofNat m.basePointer) (.ofNat (args.length + 1 - i)) =
      .ok (.ofNat (below.length + i + 1)) := by
  have fits := framed.fits form
  rw [BinaryOperator.apply, framed.base, Value.sub_ofNat (by omega) (by omega)]
  congr 2
  omega

theorem local_reference (framed : m.Framed below args slot link locals) (form : m.WellFormed)
    (small : m.stack.capacity ≤ 2 ^ 24) {j : Nat} (inside : j < locals.length) :
    BinaryOperator.add.apply (.ofNat m.basePointer) (.ofNat (j + 1)) =
      .ok (.ofNat (below.length + args.length + 2 + j + 1)) := by
  have fits := framed.fits form
  rw [BinaryOperator.apply, framed.base, Value.add_ofNat (by omega), Nat.add_assoc _ j 1]

theorem set_argument (framed : m.Framed below args slot link locals) (form : m.WellFormed) {i : Nat}
    (inside : i < args.length) (w : Value) :
    (m.withSlot (below.length + i) w).Framed below (args.set i w) slot link locals := by
  have height := framed.height form
  refine ⟨?_, by rw [List.length_set]; exact framed.base⟩
  rw [withSlot_live form (by omega), framed.live, List.append_assoc, List.append_assoc,
    List.set_append_right _ _ (Nat.le_add_right _ _), Nat.add_sub_cancel_left, List.set_append_left _ _ inside,
    List.append_assoc, List.append_assoc]

theorem set_local (framed : m.Framed below args slot link locals) (form : m.WellFormed) {j : Nat}
    (inside : j < locals.length) (w : Value) :
    (m.withSlot (below.length + args.length + 2 + j) w).Framed below args slot link (locals.set j w) := by
  have height := framed.height form
  refine ⟨?_, framed.base⟩
  rw [withSlot_live form (by omega), framed.live, ← front_length below args slot link,
    List.set_append_right _ _ (Nat.le_add_right _ _), Nat.add_sub_cancel_left]

end Framed

/-- The variables of a call, on a stack of at most `2 ^ 24` slots. An argument is read by the base pointer less
its distance and a local by the base pointer and its distance, each with two slots to spare; the value is pushed
as it is, and nothing else changes. With a third slot, for the value to be written, the same reference writes the
variable: its slot changes and nothing else, and the call is the one with that variable replaced. -/
theorem frame_variables_read_and_written (addressable : config.Addressable) (reachable : Reachable config m)
    (small : m.stack.capacity ≤ 2 ^ 24)
    (opened : Runs m ((args ++ [slot]).map .push ++ [.enter] ++ locals.map .push) now) :
    now.Framed m.stack.live args slot (.ofNat m.basePointer) locals ∧
    (now.stack.pointer + 2 ≤ now.stack.capacity →
      (∀ i a, args[i]? = some a →
        Runs now [.loadBasePointer, .push (.ofNat (args.length + 1 - i)), .binary .subtract, .copy]
          (now.keeping (a :: now.stack.values))) ∧
      (∀ j l, locals[j]? = some l →
        Runs now [.loadBasePointer, .push (.ofNat (j + 1)), .binary .add, .copy]
          (now.keeping (l :: now.stack.values)))) ∧
    (now.stack.pointer + 3 ≤ now.stack.capacity → ∀ w,
      (∀ i < args.length, ∃ next,
        Runs now [.push w, .loadBasePointer, .push (.ofNat (args.length + 1 - i)), .binary .subtract, .move]
          next ∧
        next = now.withSlot (m.stack.pointer + i) w ∧
        next.Framed m.stack.live (args.set i w) slot (.ofNat m.basePointer) locals) ∧
      (∀ j < locals.length, ∃ next,
        Runs now [.push w, .loadBasePointer, .push (.ofNat (j + 1)), .binary .add, .move] next ∧
        next = now.withSlot (m.stack.pointer + args.length + 2 + j) w ∧
        next.Framed m.stack.live args slot (.ofNat m.basePointer) (locals.set j w))) := by
  have start := reachable.wellFormed addressable
  have reached := reachable.runs opened
  have form := reached.wellFormed addressable
  rw [(reachable.sizes addressable).1, ← (reached.sizes addressable).1] at small
  have framed : now.Framed m.stack.live args slot (.ofNat m.basePointer) locals := by
    obtain ⟨inside, opens, fills⟩ := opened.of_append
    exact (framed_of_open start opens).push ((reachable.runs opens).wellFormed addressable) fills
  have height := framed.height form
  have bottom : m.stack.pointer = m.stack.live.length := by
    rw [OperandStack.live_eq_reverse, List.length_reverse, start.pointer]
  rw [bottom]
  refine ⟨framed, fun room => ⟨fun i a found => ?_, fun j l found => ?_⟩, fun room w =>
    ⟨fun i inside => ?_, fun j inside => ?_⟩⟩
  · have inside := (List.getElem?_eq_some_iff.mp found).1
    exact runs_read form small room (framed.argument_reference form small inside)
      ((framed.argument_slot inside).trans found)
  · have inside := (List.getElem?_eq_some_iff.mp found).1
    exact runs_read form small room (framed.local_reference form small inside) ((framed.local_slot j).trans found)
  · exact ⟨_, runs_write form small room (framed.argument_reference form small inside) (by omega) w, rfl,
      framed.set_argument form inside w⟩
  · exact ⟨_, runs_write form small room (framed.local_reference form small inside) (by omega) w, rfl,
      framed.set_local form inside w⟩

/-- A call inside a call, with just enough room: its first argument is read, and its local is written. -/
theorem inner_frame_variables_read_and_written :
    let m := [Op.enter, .push (.ofNat 9)].foldl (fun m op => Action.after op.apply m) (fresh ⟨10, 0, 0⟩)
    ∃ now, Runs m [.push (.ofNat 3), .push .nan, .push .zero, .enter, .push (.ofNat 7)] now ∧
      now.basePointer = 6 ∧ now.stack.pointer + 3 = now.stack.capacity ∧
      Runs now [.loadBasePointer, .push (.ofNat 3), .binary .subtract, .copy]
        (now.keeping (.ofNat 3 :: now.stack.values)) ∧
      Runs now [.push .nan, .loadBasePointer, .push (.ofNat 1), .binary .add, .move] (now.withSlot 6 .nan) := by
  intro m
  have addressable : Config.Addressable ⟨10, 0, 0⟩ := ⟨by decide, by decide⟩
  have reachable : Reachable ⟨10, 0, 0⟩ m := Reachable.fresh.operations _
  have pushes := runs_push (reachable.wellFormed addressable) ([.ofNat 3, .nan] ++ [.zero]) (by decide +kernel)
  have enters := enter_apply ((reachable.runs pushes).wellFormed addressable) (by decide +kernel)
    (by decide +kernel)
  have opens := pushes.append (.cons enters (.nil _))
  have fills := runs_push ((reachable.runs opens).wellFormed addressable) [.ofNat 7] (by decide +kernel)
  obtain ⟨now, opened⟩ : ∃ now, Runs m _ now := ⟨_, opens.append fills⟩
  have reached := reachable.runs opened
  obtain ⟨framed, read, written⟩ :=
    frame_variables_read_and_written addressable reachable (by decide +kernel) opened
  have height := framed.height (reached.wellFormed addressable)
  have below : m.stack.live.length = 2 := by decide +kernel
  have pointer : m.stack.pointer = 2 := by decide +kernel
  have capacity : now.stack.capacity = 10 := (reached.sizes addressable).1
  have room : now.stack.pointer + 3 = now.stack.capacity := by rw [height, below, capacity]; rfl
  obtain ⟨next, run, rfl, -⟩ := (written room.le .nan).2 0 (by decide)
  rw [pointer] at run
  exact ⟨now, opened, by rw [framed.base, below]; rfl, room, (read (Nat.le_of_succ_le room.le)).1 0 _ rfl, run⟩

end Machine
end StackMachine
