import Mathlib
import StackMachine.OperandStack
import StackMachine.Proofs.Action

/-! The operand stack as a list of values, the top first. A stack whose dead slots are zero is given
by its capacity and its list, `holding capacity values`, and every operation keeps that form: `push`
and `pop` work at the head of the list, `peek` and `poke` count positions from its end. After this
file nothing looks at the slots. -/
namespace StackMachine.OperandStack

/-- The live values, the top first. -/
def values (s : OperandStack) : List Value := s.live.reverse

/-- The stack of `capacity` slots with the given live values, the top first, and zeros above. -/
def holding (capacity : Nat) (values : List Value) : OperandStack :=
  ⟨(values.reverse ++ List.replicate (capacity - values.length) Value.zero).toArray, values.length⟩

theorem live_eq_reverse (s : OperandStack) : s.live = s.values.reverse := by
  rw [values, List.reverse_reverse]

theorem values_of_live {s : OperandStack} {below above : List Value} (live : s.live = below ++ above) :
    s.values = above.reverse ++ below.reverse := by
  rw [values, live, List.reverse_append]

variable {capacity : Nat} {v : Value} {values : List Value}

@[simp] theorem holding_pointer : (holding capacity values).pointer = values.length := rfl

@[simp] theorem holding_live : (holding capacity values).live = values.reverse := by
  simp [live, holding]

@[simp] theorem holding_values : (holding capacity values).values = values := by
  rw [OperandStack.values, holding_live, List.reverse_reverse]

theorem holding_capacity (fits : values.length ≤ capacity) :
    (holding capacity values).capacity = capacity := by
  simp only [OperandStack.capacity, holding, List.size_toArray, List.length_append,
    List.length_reverse, List.length_replicate]
  omega

theorem empty_eq_holding (capacity : Nat) : empty capacity = holding capacity [] := by
  simp [empty, holding]

theorem holding_slots (room : values.length < capacity) :
    (holding capacity values).slots =
      (values.reverse ++
        Value.zero :: List.replicate (capacity - (values.length + 1)) .zero).toArray := by
  have unused : capacity - values.length = capacity - (values.length + 1) + 1 := by omega
  rw [holding, unused, List.replicate_succ]

theorem holding_cons_slots :
    (holding capacity (v :: values)).slots =
      (values.reverse ++ v :: List.replicate (capacity - (values.length + 1)) .zero).toArray := by
  simp [holding]

theorem push_holding (room : values.length < capacity) (words : capacity < Word.limit) :
    push v (holding capacity values) = .ok () (holding capacity (v :: values)) := by
  have size := holding_capacity room.le
  rw [push_room v _ (by rw [size]; exact room) (by rw [size]; exact words)]
  congr 1
  rw [holding_slots room, holding_pointer, List.setIfInBounds_toArray,
    List.set_append_right _ _ (by simp)]
  simp [holding]

theorem push_holding_full (full : values.length = capacity) :
    push v (holding capacity values) = .error (.stackOverflow capacity) (holding capacity values) := by
  have size := holding_capacity full.le
  rw [push_full v _ (by rw [size, holding_pointer, full]), size]

theorem pop_holding (fits : values.length < capacity) :
    pop (holding capacity (v :: values)) = .ok v (holding capacity values) := by
  have below : Word.sub (values.length + 1) 1 = .ok values.length := by
    rw [Word.sub_of_le (by omega), Nat.add_sub_cancel]
  have top : Cells.read (holding capacity (v :: values)).slots values.length = .ok v := by
    simp [Cells.read, holding_cons_slots]
  have cleared : Cells.write (holding capacity (v :: values)).slots values.length .zero =
      .ok (holding capacity values).slots := by
    rw [holding_cons_slots, holding_slots fits]
    simp [Cells.write]
  rw [pop, Action.bind_ok (Action.get_run _), holding_pointer, List.length_cons,
    if_neg (Nat.succ_ne_zero _)]
  beta_reduce
  rw [Action.bind_step below, Action.bind_step top, Action.bind_step cleared]
  rfl

theorem pop_holding_nil :
    pop (holding capacity []) = .error (.stackUnderflow "pop" 1 0) (holding capacity []) :=
  pop_empty _ rfl

theorem require_ok {stack : OperandStack} {operation : String} {required : Nat}
    (passed : stack.require operation required = .ok ()) : required ≤ stack.pointer := by
  by_contra short
  rw [require, if_pos (Nat.not_le.mp short)] at passed
  cases passed

theorem checkLive_holding {index : Nat} (live : index < values.length) :
    (holding capacity values).checkLive index = .ok () :=
  if_neg (Nat.not_le.mpr live)

theorem peek_holding {index : Nat} (found : values.reverse[index]? = some v) :
    (holding capacity values).peek index = .ok v := by
  have live : index < values.length := by
    simpa using (List.getElem?_eq_some_iff.mp found).1
  have slot : (holding capacity values).slots[index]? = some v := by
    rw [holding, List.getElem?_toArray, List.getElem?_append_left (by simpa using live), found]
  rw [peek, checkLive_holding live]
  simp only [Cells.read, slot]
  rfl

theorem holding_set {index : Nat} (live : index < values.length) :
    (holding capacity values).slots.setIfInBounds index v =
      (holding capacity (values.reverse.set index v).reverse).slots := by
  rw [holding, List.setIfInBounds_toArray, List.set_append_left _ _ (by simpa using live)]
  simp [holding]

theorem poke_holding {index : Nat} (live : index < values.length) :
    poke index v (holding capacity values) =
      .ok () (holding capacity (values.reverse.set index v).reverse) := by
  have written : Cells.write (holding capacity values).slots index v =
      .ok (holding capacity (values.reverse.set index v).reverse).slots := by
    have inside : index < (holding capacity values).slots.size := by
      simp only [holding, List.size_toArray, List.length_append, List.length_reverse]
      omega
    rw [Cells.write, if_pos inside, holding_set live]
  rw [poke, Action.bind_ok (Action.get_run _), Action.bind_check (checkLive_holding live),
    Action.bind_step written]
  simp [holding]

end StackMachine.OperandStack
