import Mathlib
import StackMachine.Proofs.Reports

/-! No operation traps. Sums, differences and products of words and accesses by position go through
checks that end in a trap, `StackMachine.Word`; a step makes none that can fail, so the faults of an
operation are the ones that the machine reports itself. One counter is not bounded by the sizes of the
machine, that of the frames, and it holds as long as fewer frames than words are established. The
scans of the heap count bytes; counted in words they end alike. -/
namespace StackMachine

def TrapFree {α : Type} (x : Except Fault α) : Prop := ∀ cause, x ≠ .error (.trap cause)

theorem Op.step_trapFree (op : Op) (m : Machine) : TrapFree (op.step m) := by
  intro cause trapped
  cases op.step_reports m _ trapped with
  | plain about => cases about

/-! The scans of the heap, counted in words. -/

namespace Heap

def nextRun (run : Nat) (taken : Bool) : Except Trap Nat := if taken then .ok 0 else Word.add run 1

/-- The end of the first run of `size` free bytes, with every count a word. -/
def wordRunEnd (size : Nat) : (position run : Nat) → List Bool → Except Trap (Option Nat)
  | _, _, [] => .ok none
  | position, run, taken :: rest => do
      let run ← nextRun run taken
      let position ← Word.add position 1
      if run = size then return some position
      wordRunEnd size position run rest

def wordLongestRun (best run : Nat) : List Bool → Except Trap Nat
  | [] => .ok best
  | taken :: rest => do
      let run ← nextRun run taken
      wordLongestRun (max best run) run rest

theorem nextRun_eq {run : Nat} (words : run + 1 < Word.limit) (taken : Bool) :
    nextRun run taken = .ok (if taken then 0 else run + 1) := by
  cases taken with
  | true => rfl
  | false => exact Word.add_of_lt words

theorem wordRunEnd_eq {size position run : Nat} {taken : List Bool} (behind : run ≤ position)
    (words : position + taken.length < Word.limit) :
    wordRunEnd size position run taken = .ok (runEnd size position run taken) := by
  induction taken generalizing position run with
  | nil => rfl
  | cons bit rest ih =>
    rw [List.length_cons] at words
    rw [wordRunEnd, nextRun_eq (by omega), Word.add_of_lt (by omega), runEnd_cons]
    -- A run is no longer than the bytes scanned so far, so that the position bounds both counts.
    have longer : (if bit then 0 else run + 1) ≤ position + 1 := by split <;> omega
    have tail := ih longer (show position + 1 + rest.length < Word.limit by omega)
    by_cases full : (if bit then 0 else run + 1) = size
    · rw [if_pos full]
      exact if_pos full
    · rw [if_neg full, ← tail]
      exact if_neg full

theorem wordLongestRun_eq {best run : Nat} {taken : List Bool}
    (words : run + taken.length < Word.limit) :
    wordLongestRun best run taken = .ok (longestRun best run taken) := by
  induction taken generalizing best run with
  | nil => rfl
  | cons bit rest ih =>
    rw [List.length_cons] at words
    rw [wordLongestRun, nextRun_eq (by omega), longestRun]
    exact ih (by split <;> omega)

end Heap

/-- The frames that an operation establishes: one, where a frame is entered and its link has room. -/
def Op.establishes (op : Op) (m : Machine) : Nat :=
  if op = .enter ∧ m.stack.pointer < m.stack.capacity then 1 else 0

namespace Machine

variable {m : Machine} {config : Config} {frames : Nat}

/-- The machines that operations lead to from a fresh one, with the number of frames established on
the way. -/
inductive ReachableWith (config : Config) : Nat → Machine → Prop
  | fresh : ReachableWith config 0 (fresh config)
  | apply {frames : Nat} {m : Machine} (op : Op) : ReachableWith config frames m →
      ReachableWith config (frames + op.establishes m) (Action.after op.apply m)
  | pop {frames : Nat} {m : Machine} : ReachableWith config frames m →
      ReachableWith config frames (Action.after pop m)

theorem ReachableWith.reachable (reached : ReachableWith config frames m) : Reachable config m := by
  induction reached with
  | fresh => exact .fresh
  | apply op _ ih => exact .apply op ih
  | pop _ ih => exact .pop ih

theorem step_frameDepth_le (form : m.WellFormed) {op : Op} {next : Machine}
    (taken : op.step m = .ok next) : next.frameDepth ≤ m.frameDepth + op.establishes m := by
  by_cases moves : op.movesFrame = false
  · have same := ((Op.step_touches form taken).2.frame moves).2
    omega
  cases op with
  | enter =>
    obtain ⟨room, rfl⟩ := Step.enter_ok taken
    have established : Op.enter.establishes m = 1 := if_pos ⟨rfl, by rw [form.pointer]; exact room⟩
    rw [established]
  | leave args locals =>
    obtain ⟨saved, -, -, -, -, rfl⟩ := Step.leave_ok taken
    dsimp only
    omega
  | _ => exact absurd rfl moves

theorem WellFormed.after_frameDepth_le (form : m.WellFormed) (op : Op) :
    (Action.after op.apply m).frameDepth ≤ m.frameDepth + op.establishes m := by
  obtain ⟨-, run⟩ | ⟨-, last, run | ⟨-, next, run, follows⟩⟩ := apply_cases form op
  · cases step : op.step m with
    | ok next =>
      rw [step] at run
      rw [Action.after_ok run]
      exact step_frameDepth_le form step
    | error fault =>
      rw [step] at run
      rw [Action.after_error run]
      omega
  · rw [Action.after_error run]
    omega
  · have depth := follows.depth
    rw [Action.after_error run, last, Word.last]
    omega

theorem ReachableWith.frameDepth_le (addressable : config.Addressable)
    (reached : ReachableWith config frames m) : m.frameDepth ≤ frames := by
  induction reached with
  | fresh => exact le_rfl
  | apply op before ih =>
    have grows := (before.reachable.wellFormed addressable).after_frameDepth_le op
    omega
  | @pop frames m _ ih =>
    obtain ⟨stack, same⟩ := after_onStack (m := m) OperandStack.pop
    rw [Machine.pop, same]
    exact ih

/-- As long as fewer than `2 ^ 64` frames are established, an operation on a machine that operations
lead to ends well or with a fault that the machine reports; none of its sums, differences, products
and accesses traps. The bytes that the heap counts on the way are words as well. -/
theorem operation_never_traps (addressable : config.Addressable)
    (reached : ReachableWith config frames m) (op : Op) (fewer : frames + op.establishes m < 2 ^ 64) :
    ((∃ next, op.apply m = .ok op.flow next) ∨
      ∃ fault, op.apply m = .error fault m ∧ ∀ cause, fault ≠ .trap cause) ∧
    (∀ size, Heap.wordRunEnd size 0 0 m.heap.taken.toList =
      .ok (Heap.runEnd size 0 0 m.heap.taken.toList)) ∧
    Heap.wordLongestRun 0 0 m.heap.taken.toList = .ok m.heap.largestFreeRun := by
  have form := reached.reachable.wellFormed addressable
  have depth := reached.frameDepth_le addressable
  have words : m.heap.taken.toList.length < Word.limit := by
    rw [Array.length_toList, form.heap.mapSize]
    exact form.size.trans (by decide)
  refine ⟨?_, fun size => Heap.wordRunEnd_eq le_rfl (by omega), Heap.wordLongestRun_eq (by omega)⟩
  obtain ⟨-, run⟩ | ⟨enters, last, run | ⟨room, _⟩⟩ := apply_cases form op
  · cases step : op.step m with
    | ok next =>
      rw [step] at run
      exact .inl ⟨next, run⟩
    | error fault =>
      rw [step] at run
      refine .inr ⟨fault, run, fun cause trapped => op.step_trapFree m cause ?_⟩
      rw [step, trapped]
  · exact .inr ⟨_, run, nofun⟩
  · -- The count of frames is used up: this would be one frame too many.
    have established : op.establishes m = 1 := if_pos ⟨enters, by rw [form.pointer]; exact room⟩
    rw [Word.last, Word.limit] at last
    omega

/-- Counts whose sum is no word are refused like any others that are too large. -/
theorem leave_greatest_counts_never_traps :
    let m := Action.after (Op.push (.ofNat 0)).apply (fresh ⟨2, 8, 1⟩)
    let op := Op.leave 0xFFFFFFFFFFFFFFFF 0xFFFFFFFFFFFFFFFF
    op.establishes m = 0 ∧ ∃ fault, op.apply m = .error fault m ∧ ∀ cause, fault ≠ .trap cause := by
  intro m op
  have addressable : Config.Addressable ⟨2, 8, 1⟩ := ⟨by decide, by decide⟩
  have reached : ReachableWith ⟨2, 8, 1⟩ 0 m := .apply (.push (.ofNat 0)) .fresh
  have failed : op.apply m = .error (.stackUnderflow "end_frame" 0xFFFFFFFFFFFFFFFF 1) m := by cbv
  obtain ⟨⟨next, succeeds⟩ | reported, -⟩ := operation_never_traps addressable reached op (by decide)
  · rw [failed] at succeeds
    cases succeeds
  · exact ⟨rfl, reported⟩

end Machine
end StackMachine
