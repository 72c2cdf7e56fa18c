import Mathlib
import StackMachine.Proofs.Cursor

/-! The arrow in the trace of a run that has halted. A cursor takes the operation behind the last one that ran
for the next, and knows nothing of how the recording ended. Before the last snapshot that operation runs. Behind
the last one nothing runs, and an arrow is drawn all the same if an operation is left, which is the case exactly
if a `halt` stands before the last operation. -/
namespace StackMachine

namespace Trace

variable {front rest ops : List TracedOp} {traced : TracedOp}

theorem executed_le_length (ops : List TracedOp) : executed ops ≤ ops.length := by
  induction ops with
  | nil => exact le_rfl
  | cons traced rest ih =>
    rw [executed, List.length_cons]
    split_ifs <;> omega

theorem executed_append_halt (going : ∀ other ∈ front, other.op ≠ .halt) (halts : traced.op = .halt) :
    executed (front ++ traced :: rest) = front.length + 1 := by
  induction front with
  | nil => exact if_pos halts
  | cons first front ih =>
    obtain ⟨goes, later⟩ := List.forall_mem_cons.mp going
    rw [List.cons_append, executed, if_neg goes, ih later, List.length_cons]

theorem executed_eq_length_iff : executed ops = ops.length ↔ ∀ traced ∈ ops.dropLast, traced.op ≠ .halt := by
  induction ops with
  | nil => simp [executed]
  | cons first rest ih =>
    cases rest with
    | nil => simp [executed]
    | cons second rest =>
      rw [List.dropLast_cons_cons, List.forall_mem_cons, ← ih, executed]
      by_cases halts : first.op = .halt
      · simp [halts]
      · simp [halts]

end Trace

open Trace View

namespace Inspector

variable {s : Inspector} {t : Trace} {m : Machine} {limit : Nat}

theorem rows_of_sound (sound : s.failure? = none) (k : Nat) :
    s.traceView.rows[k]? = ((Text.lines s.source.toList)[k]?).map
      (traceRow (if s.traceView.nextLine = some (k + 1) then .next else .unmarked) (k + 1)) := by
  have unfailed : s.traceView.errorLine = none := by rw [traceView, sound, Option.bind_none]
  rw [TraceView.rows_getElem?, unfailed, Mark.ofLine, if_neg (by simp)]
  rfl

theorem row_of_nextLine (sound : s.failure? = none) {number : Nat} (next : s.traceView.nextLine = some number)
    (listed : 0 < number ∧ number ≤ (Text.lines s.source.toList).length) :
    ∃ line, (Text.lines s.source.toList)[number - 1]? = some line ∧
      s.traceView.rows[number - 1]? = some (traceRow .next number line) := by
  have found := List.getElem?_eq_getElem (Nat.sub_one_lt_of_le listed.1 listed.2)
  refine ⟨_, found, ?_⟩
  rw [rows_of_sound sound, found, Nat.sub_add_cancel listed.1, if_pos next, Option.map_some]

theorem unmarked_iff (sound : s.failure? = none)
    (listed : ∀ number ∈ s.traceView.nextLine, 0 < number ∧ number ≤ (Text.lines s.source.toList).length) :
    (∀ k line, (Text.lines s.source.toList)[k]? = some line →
      s.traceView.rows[k]? = some (traceRow .unmarked (k + 1) line)) ↔ s.traceView.nextLine = none := by
  constructor
  · intro unmarked
    by_contra arrow
    obtain ⟨number, next⟩ := Option.ne_none_iff_exists'.mp arrow
    obtain ⟨line, found, drawn⟩ := row_of_nextLine sound next (listed number next)
    have plain := unmarked _ line found
    rw [drawn, Nat.sub_add_cancel (listed number next).1] at plain
    exact absurd (Option.some.inj plain) (by simp [traceRow, Mark.style, Palette.bold, Palette.plain, Span.styled])
  · intro silent k line found
    rw [rows_of_sound sound, silent, found, if_neg (by simp), Option.map_some]

theorem nextLine_of_recorded (same : s.replay.recording = Recording.record t m limit)
    (inside : s.replay.Inside) (filled : 0 < s.replay.length) :
    s.traceView.nextLine = (t.ops[s.replay.position]?).map (·.line) := by
  obtain ⟨-, -, -, next⟩ := inside.next_of_recorded same filled
  rw [traceView, next, Replay.lineAt?, same, Recording.record_trace]

end Inspector

namespace Session

/-- A run that halted, in an inspector, after any events. Before the last snapshot the arrow is at the operation
that made the next one. At the last snapshot it is at what follows the operations that were executed. So no line
has an arrow there exactly if no `halt` comes before the last operation; and if one does, the operation right
behind the first `halt` is drawn as the next one, though it never runs. -/
theorem no_arrow_iff_halt_last (m : Machine) (limit width height : Nat) (events : List Event)
    {source : String} {t : Trace} {code : Nat} (accepted : parse source = .ok t)
    (halted : (Recording.record t m limit).outcome = .halted code) :
    let recording := Recording.record t m limit
    let s := ((start recording source width height).play events).inspector
    let lines := Text.lines source.toList
    (s.replay.position + 1 < recording.length →
      ∃ traced before after flow, t.ops[s.replay.position]? = some traced ∧
        s.traceView.nextLine = some traced.line ∧ s.replay.current? = some before ∧
        recording.history.snapshots[s.replay.position + 1]? = some after ∧
        traced.op.apply before.machine = .ok flow after.machine) ∧
    (s.replay.position + 1 = recording.length →
      t.run m = .ok code ∧ s.replay.position = executed t.ops ∧
      (s.traceView.nextLine = none ↔ ∀ traced ∈ t.ops.dropLast, traced.op ≠ .halt) ∧
      ((∀ k line, lines[k]? = some line → s.traceView.rows[k]? = some (traceRow .unmarked (k + 1) line)) ↔
        ∀ traced ∈ t.ops.dropLast, traced.op ≠ .halt) ∧
      ∀ front halt behind rest, t.ops = front ++ halt :: behind :: rest →
        (∀ other ∈ front, other.op ≠ .halt) → halt.op = .halt →
        s.traceView.nextLine = some behind.line ∧
        ∃ line, lines[behind.line - 1]? = some line ∧
          s.traceView.rows[behind.line - 1]? = some (traceRow .next behind.line line)) := by
  intro recording s lines
  have opened : (start recording source width height).inspector.replay.Inside :=
    Nat.lt_of_lt_of_le Nat.one_pos (le_max_right ..)
  obtain ⟨same, inside⟩ : s.replay.recording = recording ∧ s.replay.Inside := play_replay opened events
  have text : s.source = source := play_source ..
  obtain ⟨runs, length⟩ : t.run m = .ok code ∧ recording.length = executed t.ops + 1 :=
    Recording.record_halted halted
  have total : s.replay.length = recording.length := congrArg Recording.length same
  have filled : 0 < s.replay.length := by omega
  have next := Inspector.nextLine_of_recorded same inside filled
  have sound : s.failure? = none := by rw [Inspector.failure?, Replay.visibleFailure?, same, halted]
  refine ⟨fun before => ?_, fun last => ?_⟩
  · obtain ⟨snapshot, kept, here, -⟩ := inside.next_of_recorded same filled
    have behind := Array.getElem?_eq_getElem before
    obtain ⟨-, traced, flow, found, applied⟩ := Recording.record_step kept behind
    rw [found] at next
    exact ⟨traced, snapshot, _, flow, found, next, here, behind, applied⟩
  · have position : s.replay.position = executed t.ops := by omega
    rw [position] at next
    have listed (number : Nat) (marked : number ∈ s.traceView.nextLine) :
        0 < number ∧ number ≤ (Text.lines s.source.toList).length := by
      rw [next, Option.mem_def, Option.map_eq_some_iff] at marked
      obtain ⟨traced, found, rfl⟩ := marked
      rw [text]
      exact parse_line accepted (List.mem_of_getElem? found)
    have silent : s.traceView.nextLine = none ↔ ∀ traced ∈ t.ops.dropLast, traced.op ≠ .halt := by
      rw [next, Option.map_eq_none_iff, List.getElem?_eq_none_iff, ← executed_eq_length_iff]
      exact ⟨(executed_le_length t.ops).antisymm, Eq.ge⟩
    have unmarked := Inspector.unmarked_iff sound listed
    rw [text] at unmarked
    refine ⟨runs, position, silent, unmarked.trans silent, fun front halt behind rest split going halts => ?_⟩
    have arrow : s.traceView.nextLine = some behind.line := by
      rw [next, split, executed_append_halt going halts]
      simp
    have drawn := Inspector.row_of_nextLine sound arrow (listed _ arrow)
    rw [text] at drawn
    exact ⟨arrow, drawn⟩

/-- A run off the end, with a comment and an empty line behind the last operation. -/
theorem no_arrow_after_last_operation :
    let source := "push 1\nsign # done\n\n"
    let t : Trace := ⟨[⟨.push (.ofNat 1), 1⟩, ⟨.sign, 2⟩]⟩
    let s := ((start (.record t (.fresh ⟨2, 8, 1⟩) 1000) source 40 8).play [.press .right, .press .enter]).inspector
    parse source = .ok t ∧ s.replay.position = 2 ∧ s.traceView.nextLine = none := by
  intro source t s
  have accepted : parse source = .ok t := by decide +kernel
  have halted : (Recording.record t (.fresh ⟨2, 8, 1⟩) 1000).outcome = .halted success := by decide +kernel
  obtain ⟨-, atEnd⟩ := no_arrow_iff_halt_last (.fresh ⟨2, 8, 1⟩) 1000 40 8 [.press .right, .press .enter]
    accepted halted
  obtain ⟨-, position, silent, -⟩ := atEnd (by decide +kernel)
  exact ⟨accepted, position, silent.mpr (by decide +kernel)⟩

/-- The operation behind an early `halt` has the arrow. -/
theorem arrow_behind_early_halt :
    let source := "halt\npush 1"
    let t : Trace := ⟨[⟨.halt, 1⟩, ⟨.push (.ofNat 1), 2⟩]⟩
    let recording := Recording.record t (.fresh ⟨2, 8, 0⟩) 1000
    let s := ((start recording source 40 8).play [.press .enter]).inspector
    parse source = .ok t ∧ recording.outcome = .halted success ∧ s.replay.position + 1 = recording.length ∧
      s.traceView.nextLine = some 2 ∧ s.traceView.rows[1]? = some (traceRow .next 2 "push 1".toList) := by
  decide +kernel

end Session
end StackMachine
