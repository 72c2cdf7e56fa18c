import Mathlib
import StackMachine.Proofs.Budget
import StackMachine.Proofs.Scrolling

/-! The cursor of a replay. A recording has a snapshot before each operation that it got through, and one
behind the last, so a position of the history is also the index of the operation that comes next. Moves of the
cursor keep to the positions, hence to this agreement. A failure leaves no snapshot of its own: it shows at the
last position, and the operation that comes next there is the one that failed. -/
namespace StackMachine

namespace Recording

open Trace

variable {trace : Trace} {m : Machine} {limit p : Nat}

theorem record_length_le (trace : Trace) (m : Machine) (limit : Nat) :
    (record trace m limit).length ≤ completed m trace.ops + 1 := by
  have kept := congrArg List.length (record_fitting trace m limit)
  have most := (fitting_initial limit (fullHistory trace m)).length_le
  rw [Array.length_toList] at kept
  rw [fullHistory, List.length_cons, states_length] at most
  exact kept.trans_le most

theorem record_step {s next : Snapshot} (kept : (record trace m limit).history.snapshots[p]? = some s)
    (behind : (record trace m limit).history.snapshots[p + 1]? = some next) :
    next.opIndex = some p ∧ ∃ traced flow, trace.ops[p]? = some traced ∧
      traced.op.apply s.machine = .ok flow next.machine := by
  have inside : p + 1 < (record trace m limit).length := (Array.getElem?_eq_some_iff.mp behind).1
  have completed : p < completed m trace.ops := by
    have most := record_length_le trace m limit
    omega
  obtain ⟨index, machine⟩ := (record_states behind).symm
  rw [machine, (record_states kept).1]
  exact ⟨index, applied_of_completed completed⟩

end Recording

namespace Replay

variable {r : Replay} {i : Nat} {fault : Fault}

inductive Move where
  | forward
  | backward
  | toStart
  | toEnd
  deriving DecidableEq, Repr, Inhabited

/-- A step that fails leaves the cursor where it is. -/
def moved (r : Replay) : Move → Replay
  | .forward => Action.after Replay.forward r
  | .backward => Action.after Replay.backward r
  | .toStart => r.toStart
  | .toEnd => r.toEnd

def walk (r : Replay) (moves : List Move) : Replay := moves.foldl moved r

theorem Inside.moved (inside : r.Inside) (move : Move) :
    (r.moved move).recording = r.recording ∧ (r.moved move).Inside := by
  cases move with
  | forward =>
    rw [Replay.moved, inside.after_forward]
    exact ⟨rfl, inside.advanced 1⟩
  | backward =>
    rw [Replay.moved, after_backward]
    exact ⟨rfl, inside.before⟩
  | toStart => exact ⟨rfl, r.toStart_inside⟩
  | toEnd => exact ⟨rfl, r.toEnd_inside⟩

theorem Inside.walk (inside : r.Inside) (moves : List Move) :
    (r.walk moves).recording = r.recording ∧ (r.walk moves).Inside := by
  induction moves generalizing r with
  | nil => exact ⟨rfl, inside⟩
  | cons move rest ih =>
    obtain ⟨same, here⟩ := inside.moved move
    obtain ⟨later, there⟩ := ih here
    exact ⟨later.trans same, there⟩

theorem forward_fails_iff : (∃ e stay, forward r = .error e stay) ↔ r.isAtEnd = true := by
  rw [forward_eq]
  split_ifs with ended <;> simp [ended]

theorem backward_fails_iff : (∃ e stay, backward r = .error e stay) ↔ r.position = 0 := by
  rw [backward_eq]
  split_ifs with start <;> simp [start]

theorem forward_error {e : CursorError} {stay : Replay} (failed : forward r = .error e stay) : stay = r := by
  rw [forward_eq] at failed
  split_ifs at failed
  cases failed
  rfl

theorem backward_error {e : CursorError} {stay : Replay} (failed : backward r = .error e stay) : stay = r := by
  rw [backward_eq] at failed
  split_ifs at failed
  cases failed
  rfl

theorem nextOpIndex_of_opIndex {s : Snapshot} (here : r.current? = some s)
    (numbered : s.opIndex = if r.position = 0 then none else some (r.position - 1)) :
    r.nextOpIndex = r.position := by
  obtain ⟨machine, index⟩ := s
  rw [nextOpIndex, here]
  by_cases start : r.position = 0
  · rw [if_pos start] at numbered
    cases numbered
    exact start.symm
  · rw [if_neg start] at numbered
    cases numbered
    exact Nat.sub_add_cancel (Nat.pos_of_ne_zero start)

theorem Inside.next_of_recorded {trace : Trace} {m : Machine} {limit : Nat} (inside : r.Inside)
    (same : r.recording = Recording.record trace m limit) (filled : 0 < r.length) :
    ∃ s, (Recording.record trace m limit).history.snapshots[r.position]? = some s ∧ r.current? = some s ∧
      r.nextOpIndex = r.position := by
  obtain ⟨s, here⟩ := inside.current filled
  have kept := here
  rw [current?, same] at kept
  exact ⟨s, kept, here, nextOpIndex_of_opIndex here (Recording.record_states kept).2⟩

theorem Inside.isAtEnd_iff_last (inside : r.Inside) (filled : 0 < r.length) :
    r.isAtEnd = true ↔ r.position + 1 = r.length := by
  rw [isAtEnd_iff]
  simp only [Inside] at inside
  omega

theorem visibleFailure_of_failed (failed : r.recording.outcome = .failed i fault) (inside : r.Inside)
    (filled : 0 < r.length) :
    r.visibleFailure? = if r.position + 1 = r.length then some (i, fault) else none := by
  rw [visibleFailure?, failed]
  simp only [inside.isAtEnd_iff_last filled]

end Replay

namespace View

theorem Mark.ofLine_ite (nextLine : Option Nat) (failed : Prop) [Decidable failed] (line : Nat) :
    Mark.ofLine nextLine (if failed then nextLine else none) line =
      if nextLine = some line then if failed then .failed else .next else .unmarked := by
  by_cases known : failed
  · rw [Mark.ofLine, if_pos known, if_pos known]
    split_ifs <;> rfl
  · rw [Mark.ofLine, if_neg known, if_neg known, if_neg (by simp)]

end View

namespace Inspector

variable {s : Inspector} {i : Nat} {fault : Fault}

/-- With a failure at the operation that comes next, its line is the only one with a mark, and a failure is
marked once it is seen. -/
theorem rows_of_failed
    (seen : s.failure? = if s.replay.position + 1 = s.replay.length then some (i, fault) else none)
    (next : s.replay.position + 1 = s.replay.length → s.replay.nextOpIndex = i) (k : Nat) :
    s.traceView.rows[k]? = ((Text.lines s.source.toList)[k]?).map (View.traceRow
      (if s.traceView.nextLine = some (k + 1) then
        if s.replay.position + 1 = s.replay.length then .failed else .next
      else .unmarked) (k + 1)) := by
  have marked : s.traceView.errorLine =
      if s.replay.position + 1 = s.replay.length then s.traceView.nextLine else none := by
    rw [traceView, seen]
    split_ifs with last
    · rw [Option.bind_some, next last]
    · rfl
  rw [View.TraceView.rows_getElem?, marked, View.Mark.ofLine_ite]
  rfl

end Inspector

namespace Replay

/-- The cursor after any moves over any recording. Where there are snapshots, it is at one of them, and its
position is the index of the operation that comes next; the snapshot behind is what that operation made of this
one. A step forward fails exactly at the end and a step back at the start, and then nothing has changed. If the
recording ended with a failure, an inspector shows it at the last snapshot and nowhere else; there the operation
that failed comes next, and its line is drawn as the failed one, where before the line of the next operation is
drawn as such. -/
theorem cursor_at_next_operation (trace : Trace) (m : Machine) (limit : Nat) (moves : List Move) :
    let recording := Recording.record trace m limit
    let r := walk ⟨recording, 0⟩ moves
    r.recording = recording ∧
    (0 < r.length → ∃ s, recording.history.snapshots[r.position]? = some s ∧ r.current? = some s ∧
      r.nextOpIndex = r.position ∧
      (r.position + 1 < r.length → ∃ next traced flow,
        recording.history.snapshots[r.position + 1]? = some next ∧ next.opIndex = some r.nextOpIndex ∧
        trace.ops[r.nextOpIndex]? = some traced ∧ traced.op.apply s.machine = .ok flow next.machine)) ∧
    ((∃ e stay, forward r = .error e stay) ↔ r.isAtEnd = true) ∧
    ((∃ e stay, backward r = .error e stay) ↔ r.position = 0) ∧
    (∀ e stay, forward r = .error e stay ∨ backward r = .error e stay → stay = r) ∧
    ∀ i fault, recording.outcome = .failed i fault → ∀ s : Inspector, s.replay = r →
      (s.failure? = if r.position + 1 = r.length then some (i, fault) else none) ∧
      (r.position + 1 = r.length → r.nextOpIndex = i ∧
        ∃ traced, trace.ops[i]? = some traced ∧ s.traceView.nextLine = some traced.line) ∧
      ∀ k, s.traceView.rows[k]? = ((Text.lines s.source.toList)[k]?).map (View.traceRow
        (if s.traceView.nextLine = some (k + 1) then
          if r.position + 1 = r.length then .failed else .next
        else .unmarked) (k + 1)) := by
  intro recording r
  have start : (⟨recording, 0⟩ : Replay).Inside := toStart_inside ⟨recording, 0⟩
  obtain ⟨same, inside⟩ : r.recording = recording ∧ r.Inside := start.walk moves
  refine ⟨same, fun filled => ?_, forward_fails_iff, backward_fails_iff, ?_, ?_⟩
  · obtain ⟨s, kept, here, next⟩ := inside.next_of_recorded same filled
    refine ⟨s, kept, here, next, fun before => ?_⟩
    rw [length, same] at before
    have behind := Array.getElem?_eq_getElem before
    obtain ⟨index, traced, flow, found, applied⟩ := Recording.record_step kept behind
    rw [next]
    exact ⟨_, traced, flow, behind, index, found, applied⟩
  · rintro e stay (failed | failed)
    · exact forward_error failed
    · exact backward_error failed
  · intro i fault failed s shown
    obtain ⟨size, fails⟩ := Recording.record_failed failed
    have length : r.length = i + 1 := by rw [Replay.length, same]; exact size
    have filled : 0 < r.length := by omega
    obtain ⟨-, -, -, next⟩ := inside.next_of_recorded same filled
    have reached (last : r.position + 1 = r.length) : r.nextOpIndex = i := by omega
    have seen : s.failure? = if r.position + 1 = r.length then some (i, fault) else none := by
      rw [Inspector.failure?, shown, visibleFailure_of_failed (same ▸ failed) inside filled]
    refine ⟨seen, fun last => ⟨reached last, ?_⟩, ?_⟩
    · obtain ⟨traced, -, found, -⟩ := fails.fails
      refine ⟨traced, found, ?_⟩
      rw [Inspector.traceView, shown, reached last, lineAt?, same, Recording.record_trace, found, Option.map_some]
    · rw [← shown] at seen reached ⊢
      exact Inspector.rows_of_failed seen reached

/-- The cursor runs against the end, steps back and jumps to the end again, where the failure is. -/
theorem failure_seen_after_moves :
    let r := walk ⟨Recording.record (.ofOps [.push (.ofNat 1), .free]) (.fresh ⟨2, 8, 1⟩) 1000, 0⟩
      [.forward, .forward, .backward, .toEnd]
    let s : Inspector := { replay := r, source := "push 1\nfree" }
    r.nextOpIndex = 1 ∧ s.failure? = some (1, .stackUnderflow "free" 2 1) ∧ s.traceView.nextLine = some 2 ∧
      s.traceView.rows[1]? = some (View.traceRow .failed 2 "free".toList) ∧
      (∃ e stay, forward r = .error e stay) ∧ ∃ s, r.current? = some s := by
  intro r s
  obtain ⟨-, current, forwards, -, -, failures⟩ := cursor_at_next_operation
    (.ofOps [.push (.ofNat 1), .free]) (.fresh ⟨2, 8, 1⟩) 1000 [.forward, .forward, .backward, .toEnd]
  have last : r.position + 1 = r.length := by decide +kernel
  obtain ⟨seen, next, rows⟩ := failures 1 (.stackUnderflow "free" 2 1) (by decide +kernel) s rfl
  obtain ⟨snapshot, -, here, -⟩ := current (by decide +kernel)
  have line : s.traceView.nextLine = some 2 := by decide +kernel
  have text : (Text.lines s.source.toList)[1]? = some "free".toList := by decide +kernel
  have drawn := rows 1
  rw [text, line, if_pos rfl, if_pos last] at drawn
  exact ⟨(next last).1, seen.trans (if_pos last), line, drawn, forwards.mpr (by decide +kernel), snapshot, here⟩

end Replay
end StackMachine
