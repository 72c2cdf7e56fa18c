import Mathlib
import StackMachine.View.StackView
import StackMachine.Proofs.Numbered
import StackMachine.Proofs.Reachable

/-! The rows of the stack pane. The chain of frames is followed through values that programs write, so nothing is
known of them; but each link lies below the one before it, and the chain ends for that reason. The links in the order
of their slots are the chain backwards. A row is made for every live slot, with a heading before it if the slot is a
link. -/
namespace StackMachine

namespace Machine

variable {m : Machine} {stack : OperandStack} {base link i : Nat}

theorem WellFormed.peek (form : m.WellFormed) (i : Nat) : (m.stack.peek i).toOption = m.stack.live[i]? := by
  rw [OperandStack.live_eq_reverse]
  cases found : m.stack.values.reverse[i]? with
  | some v =>
    have read : (OperandStack.holding m.stack.capacity m.stack.values).peek i = .ok v :=
      OperandStack.peek_holding found
    rw [form.holding] at read
    rw [read]
    rfl
  | none =>
    have outside : m.stack.pointer ≤ i := by
      rw [form.pointer]
      simpa using found
    rw [OperandStack.peek, OperandStack.checkLive, if_pos outside]
    rfl

end Machine

namespace View

variable {m : Machine} {links : List Nat} {front back : List StackRow} {i : Nat}

theorem StackRow.row_text (errorIndex : Option Nat) (row : StackRow) :
    (row.row errorIndex).spans.flatMap (·.text) = row.reading.flatMap String.toList := by
  refine styledPieces_text ?_
  cases row with
  | slot index v isLink hooks => cases isLink <;> simp [reading, styles]
  | _ => rfl

/-- A heading has the row of its link right behind it. -/
def Headed (rows : List StackRow) : Prop :=
  ∀ k number link, rows[k]? = some (StackRow.frame number link) →
    ∃ v hooks, rows[k + 1]? = some (StackRow.slot link v true hooks)

theorem Headed.append (first : Headed front) (second : Headed back) : Headed (front ++ back) := by
  intro k number link found
  rw [List.getElem?_append] at found
  split_ifs at found with early
  · obtain ⟨v, hooks, next⟩ := first k number link found
    have inside := (List.getElem?_eq_some_iff.mp next).1
    exact ⟨v, hooks, by rw [List.getElem?_append_left inside, next]⟩
  · obtain ⟨v, hooks, next⟩ := second _ number link found
    refine ⟨v, hooks, ?_⟩
    rw [List.getElem?_append_right (by omega), ← next]
    congr 1
    omega

theorem Headed.flatMap {α : Type} {entries : List α} {f : α → List StackRow}
    (each : ∀ entry ∈ entries, Headed (f entry)) : Headed (entries.flatMap f) := by
  induction entries with
  | nil => exact fun k number link found => by cases found
  | cons entry rest ih =>
    obtain ⟨first, later⟩ := List.forall_mem_cons.mp each
    exact first.append (ih later)

end View
end StackMachine
