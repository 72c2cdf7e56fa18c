import Mathlib
import StackMachine.Inspector.Drawing
import StackMachine.Proofs.Action

/-! Moving through a recording. Whatever happens to an inspector, the recording stays and only the position
in it moves: by steps that stop at both ends, by jumps to an end, and by the clock. A position inside the
history stays inside, and steps forward from there add up, cut at the last snapshot: this is
`Replay.advanced`. A session is an inspector on a screen of a size; its events are key presses, ticks of the
clock, draws and changes of the size. -/
namespace StackMachine

namespace Replay

variable {r : Replay}

/-- The position is one of the history, or the start of an empty one. -/
def Inside (r : Replay) : Prop := r.position < max r.length 1

def advanced (r : Replay) (n : Nat) : Replay := { r with position := min (r.position + n) (r.length - 1) }

@[simp] theorem advanced_length (r : Replay) (n : Nat) : (r.advanced n).length = r.length := rfl

theorem advanced_position (r : Replay) (n : Nat) :
    (r.advanced n).position = min (r.position + n) (r.length - 1) := rfl

theorem Inside.advanced (inside : r.Inside) (n : Nat) : (r.advanced n).Inside := by
  simp only [Inside, advanced_position, advanced_length] at inside ⊢
  omega

theorem Inside.le_advanced (inside : r.Inside) (n : Nat) : r.position ≤ (r.advanced n).position := by
  simp only [Inside, advanced_position] at inside ⊢
  omega

theorem Inside.advanced_zero (inside : r.Inside) : r.advanced 0 = r := by
  have same : min (r.position + 0) (r.length - 1) = r.position := by
    simp only [Inside] at inside
    omega
  rw [Replay.advanced, same]

theorem advanced_advanced (r : Replay) (n k : Nat) : (r.advanced n).advanced k = r.advanced (n + k) := by
  have same : min (min (r.position + n) (r.length - 1) + k) (r.length - 1) =
      min (r.position + (n + k)) (r.length - 1) := by omega
  simp only [Replay.advanced, length] at same ⊢
  rw [same]

theorem isAtEnd_iff : r.isAtEnd = true ↔ r.length ≤ r.position + 1 := by simp [isAtEnd]

theorem not_isAtEnd_iff : r.isAtEnd = false ↔ r.position + 1 < r.length := by simp [isAtEnd]

theorem Inside.advanced_atEnd (inside : r.Inside) (ended : r.isAtEnd = true) (n : Nat) :
    r.advanced n = r := by
  have same : min (r.position + n) (r.length - 1) = r.position := by
    rw [isAtEnd_iff] at ended
    simp only [Inside] at inside
    omega
  rw [Replay.advanced, same]

theorem advanced_one_of_before (before : r.isAtEnd = false) :
    r.advanced 1 = { r with position := r.position + 1 } := by
  have next : min (r.position + 1) (r.length - 1) = r.position + 1 := by
    rw [not_isAtEnd_iff] at before
    omega
  rw [Replay.advanced, next]

theorem Inside.after_forward (inside : r.Inside) : Action.after forward r = r.advanced 1 := by
  cases ends : r.isAtEnd with
  | true =>
    rw [Action.after, forward_eq, if_pos ends]
    exact (inside.advanced_atEnd ends 1).symm
  | false =>
    rw [Action.after, forward_eq, if_neg (by simp [ends])]
    exact (advanced_one_of_before ends).symm

theorem after_backward (r : Replay) :
    Action.after backward r = { r with position := r.position - 1 } := by
  rw [Action.after, backward_eq]
  by_cases start : r.position = 0
  · have same : r.position - 1 = r.position := by omega
    rw [if_pos start, same]
  · rw [if_neg start]

theorem Inside.before (inside : r.Inside) : ({ r with position := r.position - 1 } : Replay).Inside :=
  (Nat.sub_le _ 1).trans_lt inside

theorem toStart_inside (r : Replay) : r.toStart.Inside := Nat.lt_of_lt_of_le Nat.one_pos (le_max_right ..)

theorem toEnd_inside (r : Replay) : r.toEnd.Inside := by
  change r.length - 1 < max r.length 1
  omega

theorem Inside.forwardMany_eq (inside : r.Inside) (n : Nat) :
    r.forwardMany n = ((r.advanced n).position - r.position, r.advanced n) := by
  induction n generalizing r with
  | zero => rw [inside.advanced_zero, Nat.sub_self, forwardMany]
  | succ n ih =>
    cases ends : r.isAtEnd with
    | true => rw [forwardMany, forward_eq, if_pos ends, inside.advanced_atEnd ends, Nat.sub_self]
    | false =>
      have later : ({ r with position := r.position + 1 } : Replay).Inside :=
        advanced_one_of_before ends ▸ inside.advanced 1
      have count : (r.advanced (n + 1)).position - (r.position + 1) + 1 =
          (r.advanced (n + 1)).position - r.position := by
        have before := not_isAtEnd_iff.mp ends
        rw [advanced_position]
        omega
      rw [forwardMany, forward_eq, if_neg (by simp [ends])]
      simp only [ih later]
      rw [← advanced_one_of_before ends, advanced_advanced, Nat.add_comm 1 n, count]

end Replay

namespace Inspector

variable {s : Inspector}

theorem stepForward_replay (s : Inspector) :
    s.stepForward.replay = Action.after Replay.forward s.replay := by
  rw [stepForward, Action.after]
  cases Replay.forward s.replay <;> rfl

@[simp] theorem stepForward_playing (s : Inspector) : s.stepForward.playing = s.playing := by
  rw [stepForward]
  cases Replay.forward s.replay <;> rfl

theorem stepBackward_replay (s : Inspector) :
    s.stepBackward.replay = Action.after Replay.backward s.replay := by
  rw [stepBackward, Action.after]
  cases Replay.backward s.replay <;> rfl

theorem press_right_replay (inside : s.replay.Inside) :
    (s.press .right).replay = s.replay.advanced 1 := by
  rw [press, stepForward_replay]
  exact inside.after_forward

@[simp] theorem press_right_playing (s : Inspector) : (s.press .right).playing = false := by
  rw [press, stepForward_playing, pause]

theorem press_left_right (inside : s.replay.Inside)
    (moved : (s.press .right).replay.position ≠ s.replay.position) :
    ((s.press .right).press .left).replay = s.replay := by
  have before : s.replay.isAtEnd = false := by
    by_contra ended
    rw [press_right_replay inside, inside.advanced_atEnd (by simpa using ended)] at moved
    exact moved rfl
  have right := press_right_replay inside
  rw [Replay.advanced_one_of_before before] at right
  rw [press, stepBackward_replay, pause, right, Replay.after_backward]
  rfl

theorem iterate_press_right (inside : s.replay.Inside) {n : Nat} (positive : 0 < n) :
    ((press · .right)^[n] s).replay = s.replay.advanced n ∧
      ((press · .right)^[n] s).playing = false := by
  induction n, positive using Nat.le_induction with
  | base => exact ⟨press_right_replay inside, press_right_playing s⟩
  | succ n _ ih =>
    rw [Function.iterate_succ_apply']
    refine ⟨?_, press_right_playing _⟩
    rw [press_right_replay (ih.1 ▸ inside.advanced n), ih.1, Replay.advanced_advanced]

theorem press_digit (s : Inspector) {n : Nat} (low : 1 ≤ n) (high : n ≤ 9) :
    s.press (.char n.digitChar) = s.pause.stepMany n := by
  interval_cases n <;> rfl

theorem stepMany_eq (inside : s.replay.Inside) (n : Nat) :
    s.stepMany n =
      { s with
        replay := s.replay.advanced n
        message := s!"Stepped forward {(s.replay.advanced n).position - s.replay.position} step(s)" } := by
  rw [stepMany, inside.forwardMany_eq]

def Timed (s : Inspector) : Prop := s.playing = !s.replay.isAtEnd

/-- The clock runs, or there is nothing left to play. -/
def Going (s : Inspector) : Prop := s.playing = true ∨ s.replay.isAtEnd = true

theorem Timed.going (timed : s.Timed) : s.Going := by
  rw [Going, timed]
  cases s.replay.isAtEnd <;> simp

theorem tick_eq (inside : s.replay.Inside) (going : s.Going) :
    s.tick.replay = s.replay.advanced 1 ∧ s.tick.Timed := by
  have stepped : s.stepForward.replay = s.replay.advanced 1 := by
    rw [stepForward_replay, inside.after_forward]
  cases playing : s.playing with
  | true =>
    rw [tick, if_pos playing]
    dsimp only
    split
    case isTrue ended => exact ⟨stepped, by simp [Timed, pause, ended]⟩
    case isFalse before => exact ⟨stepped, by simp [Timed, playing, before]⟩
  | false =>
    have ended : s.replay.isAtEnd = true := going.resolve_left (by simp [playing])
    rw [tick, if_neg (by simp [playing])]
    exact ⟨(inside.advanced_atEnd ended 1).symm, by simp [Timed, playing, ended]⟩

theorem drawOn_eq (s : Inspector) (layout : Layout) (screen : Screen) :
    ∃ trace stack heap, (s.drawOn layout screen).2 =
      { s with traceScroll := trace, stackScroll := stack, heapScroll := heap } := by
  rw [drawOn]
  dsimp only
  rw [drawState]
  split
  · exact ⟨_, _, _, rfl⟩
  · exact ⟨_, _, _, rfl⟩

theorem scrollUp_replay (s : Inspector) : s.scrollUp.replay = s.replay := by
  rw [scrollUp]
  cases s.focus <;> rfl

theorem scrollDown_replay (s : Inspector) : s.scrollDown.replay = s.replay := by
  rw [scrollDown]
  cases s.focus <;> rfl

theorem press_replay (inside : s.replay.Inside) (key : Key) :
    (s.press key).replay.recording = s.replay.recording ∧ (s.press key).replay.Inside := by
  cases key with
  | char c =>
    rw [press]
    split_ifs
    · exact ⟨rfl, inside⟩
    · rw [stepMany_eq (by exact inside)]
      exact ⟨rfl, inside.advanced _⟩
    · exact ⟨rfl, inside⟩
    · exact ⟨rfl, inside⟩
  | left =>
    rw [press, stepBackward_replay, Replay.after_backward]
    exact ⟨rfl, inside.before⟩
  | right =>
    rw [press_right_replay inside]
    exact ⟨rfl, inside.advanced 1⟩
  | up =>
    rw [press, scrollUp_replay]
    exact ⟨rfl, inside⟩
  | down =>
    rw [press, scrollDown_replay]
    exact ⟨rfl, inside⟩
  | enter => exact ⟨rfl, s.replay.toEnd_inside⟩
  | backspace => exact ⟨rfl, s.replay.toStart_inside⟩
  | tab | other => exact ⟨rfl, inside⟩

end Inspector

inductive Event where
  | press (key : Key)
  | tick
  | draw
  | resize (width height : Nat)
  deriving DecidableEq, Repr, Inhabited

/-- An inspector on a screen of a size that is divided among the panes in some way. -/
structure Session where
  inspector : Inspector
  width : Nat
  height : Nat
  divide : Area → Inspector.Layout

namespace Session

variable {s : Session} {events : List Event}

def start (recording : Recording) (source : String) (width height : Nat)
    (divide : Area → Inspector.Layout := .ofArea) : Session :=
  ⟨.ofRecording recording source, width, height, divide⟩

def layout (s : Session) : Inspector.Layout := s.divide ⟨0, 0, s.width, s.height⟩

def draw (s : Session) : Screen × Inspector := s.inspector.drawOn s.layout (.blank s.width s.height)

/-- The session after an event. The inspector learns of a new size of the screen when it draws. -/
def after (s : Session) : Event → Session
  | .press key => { s with inspector := s.inspector.press key }
  | .tick => { s with inspector := s.inspector.tick }
  | .draw => { s with inspector := s.draw.2 }
  | .resize width height => { s with width, height }

def play (s : Session) (events : List Event) : Session := events.foldl after s

theorem play_cons (s : Session) (event : Event) (events : List Event) :
    s.play (event :: events) = (s.after event).play events := rfl

theorem after_shown (s : Session) {event : Event}
    (shown : event = .draw ∨ ∃ width height, event = .resize width height) :
    (s.after event).inspector.replay = s.inspector.replay ∧
      (s.after event).inspector.playing = s.inspector.playing ∧
      (s.after event).inspector.focus = s.inspector.focus ∧
      (s.after event).inspector.message = s.inspector.message := by
  obtain rfl | ⟨width, height, rfl⟩ := shown
  · obtain ⟨trace, stack, heap, drawn⟩ := s.inspector.drawOn_eq s.layout (.blank s.width s.height)
    rw [after, draw, drawn]
    exact ⟨rfl, rfl, rfl, rfl⟩
  · exact ⟨rfl, rfl, rfl, rfl⟩

theorem after_replay (inside : s.inspector.replay.Inside) (event : Event) :
    (s.after event).inspector.replay.recording = s.inspector.replay.recording ∧
      (s.after event).inspector.replay.Inside := by
  cases event with
  | press key => exact Inspector.press_replay inside key
  | tick =>
    cases playing : s.inspector.playing with
    | true =>
      rw [after, (Inspector.tick_eq inside (.inl playing)).1]
      exact ⟨rfl, inside.advanced 1⟩
    | false =>
      rw [after, Inspector.tick, if_neg (by simp [playing])]
      exact ⟨rfl, inside⟩
  | draw =>
    rw [(s.after_shown (.inl rfl)).1]
    exact ⟨rfl, inside⟩
  | resize width height => exact ⟨rfl, inside⟩

theorem play_replay (inside : s.inspector.replay.Inside) (events : List Event) :
    (s.play events).inspector.replay.recording = s.inspector.replay.recording ∧
      (s.play events).inspector.replay.Inside := by
  induction events generalizing s with
  | nil => exact ⟨rfl, inside⟩
  | cons event rest ih =>
    obtain ⟨same, stays⟩ := after_replay inside event
    rw [play_cons, (ih stays).1, same]
    exact ⟨rfl, (ih stays).2⟩

theorem after_untouched (inside : s.inspector.replay.Inside) (going : s.inspector.Going) {event : Event}
    (untouched : ∀ key, event ≠ .press key) :
    (s.after event).inspector.replay =
        s.inspector.replay.advanced (if event == .tick then 1 else 0) ∧
      (s.after event).inspector.Going ∧
      (s.inspector.Timed ∨ event = .tick → (s.after event).inspector.Timed) := by
  by_cases ticks : event = .tick
  · subst ticks
    obtain ⟨moved, timed⟩ := Inspector.tick_eq inside going
    exact ⟨moved, timed.going, fun _ => timed⟩
  · have shown : event = .draw ∨ ∃ width height, event = .resize width height := by
      cases event with
      | press key => exact absurd rfl (untouched key)
      | tick => exact absurd rfl ticks
      | draw => exact .inl rfl
      | resize width height => exact .inr ⟨width, height, rfl⟩
    obtain ⟨replay, playing, -, -⟩ := s.after_shown shown
    rw [Inspector.Going, Inspector.Timed, Inspector.Timed, replay, playing,
      if_neg (by simpa using ticks), inside.advanced_zero]
    exact ⟨rfl, going, fun timed => timed.resolve_right ticks⟩

/-- Time passes while no key is pressed: every tick counts, and from the first one on the clock runs
exactly before the end. -/
theorem play_untouched (inside : s.inspector.replay.Inside) (going : s.inspector.Going)
    (untouched : ∀ event ∈ events, ∀ key, event ≠ .press key) :
    (s.play events).inspector.replay = s.inspector.replay.advanced (events.count .tick) ∧
      (s.inspector.Timed ∨ .tick ∈ events → (s.play events).inspector.Timed) := by
  -- `Going` carries the induction: a key can start the clock at the end, so `Timed` need not hold at first.
  induction events generalizing s with
  | nil => exact ⟨inside.advanced_zero.symm, fun timed => timed.resolve_right List.not_mem_nil⟩
  | cons event rest ih =>
    obtain ⟨moved, goes, ticked⟩ := after_untouched inside going (untouched event List.mem_cons_self)
    obtain ⟨reached, timed⟩ := ih (after_replay inside event).2 goes
      fun other member => untouched other (List.mem_cons_of_mem _ member)
    refine ⟨?_, fun before => timed ?_⟩
    · rw [play_cons, reached, moved, Replay.advanced_advanced, List.count_cons, Nat.add_comm]
    · rw [List.mem_cons, eq_comm, ← or_assoc] at before
      exact before.imp_left ticked

/-- Navigation. After any events the position is inside the recording, which has not changed. Draws and new
sizes of the screen move nothing. A digit moves as that many single steps do and says how far, a step back
undoes a step forward that moved, and while no key is pressed the ticks of a running clock move one snapshot
each until the end, where the clock stops. -/
theorem navigation_stays_in_recording (recording : Recording) (source : String) (width height : Nat)
    (events : List Event) :
    let session := (start recording source width height).play events
    let s := session.inspector
    s.replay.position < max recording.length 1 ∧
    s.replay.recording = recording ∧
    (∀ event, (event = .draw ∨ ∃ width height, event = .resize width height) →
      (session.after event).inspector.replay.position = s.replay.position ∧
      (session.after event).inspector.playing = s.playing ∧
      (session.after event).inspector.focus = s.focus ∧
      (session.after event).inspector.message = s.message) ∧
    (∀ n, 1 ≤ n → n ≤ 9 →
      let digit := s.press (.char n.digitChar)
      let single := (Inspector.press · .right)^[n] s
      digit.replay.position = single.replay.position ∧ digit.playing = single.playing ∧
      s.replay.position ≤ digit.replay.position ∧
      digit.message =
        s!"Stepped forward {digit.replay.position - s.replay.position} step(s)") ∧
    ((s.press .right).replay.position ≠ s.replay.position →
      ((s.press .right).press .left).replay.position = s.replay.position) ∧
    (s.playing = true → ∀ later : List Event, (∀ event ∈ later, ∀ key, event ≠ .press key) →
      .tick ∈ later →
      let t := (session.play later).inspector
      t.replay.position = min (s.replay.position + later.count .tick) (recording.length - 1) ∧
      (t.playing = true ↔ t.replay.isAtEnd = false)) := by
  intro session s
  have opened : (start recording source width height).inspector.replay.Inside :=
    Nat.lt_of_lt_of_le Nat.one_pos (le_max_right ..)
  obtain ⟨same, inside⟩ := play_replay opened events
  have length : s.replay.length = recording.length := congrArg Recording.length same
  refine ⟨length ▸ inside, same, fun event shown => ?_, fun n low high => ?_, fun moved => ?_,
    fun playing later untouched ticks => ?_⟩
  · obtain ⟨replay, rest⟩ := session.after_shown shown
    exact ⟨congrArg Replay.position replay, rest⟩
  · obtain ⟨reached, paused⟩ := Inspector.iterate_press_right inside low
    intro digit single
    have stepped : digit = s.pause.stepMany n := s.press_digit low high
    rw [Inspector.stepMany_eq (by exact inside)] at stepped
    rw [reached, paused, stepped]
    exact ⟨rfl, rfl, inside.le_advanced n, rfl⟩
  · rw [Inspector.press_left_right inside moved]
  · obtain ⟨reached, timed⟩ := play_untouched inside (.inl playing) untouched
    intro t
    have stops : t.playing = !t.replay.isAtEnd := timed (.inr ticks)
    refine ⟨?_, by rw [stops, Bool.not_eq_true']⟩
    rw [reached, Replay.advanced_position, length]

/-- The clock is started by a key and stops at the end; from where it was started two steps are one digit,
and a step forward is undone. -/
theorem recording_played_to_end :
    let t : Trace := ⟨[⟨.push (.ofNat 1), 1⟩, ⟨.push (.ofNat 2), 2⟩, ⟨.push (.ofNat 3), 3⟩]⟩
    let recording := Recording.record t (.fresh ⟨4, 8, 1⟩) 1000
    let session := (start recording "push 1\npush 2\npush 3" 20 10).play [.press (.char ' ')]
    let s := session.inspector
    let digit := s.press (.char '2')
    let later := (session.play [.tick, .tick, .tick, .tick]).inspector
    recording.length = 4 ∧ s.playing = true ∧ s.replay.position = 0 ∧
    later.replay.position = 3 ∧ later.playing = false ∧
    digit.replay.position = ((Inspector.press · .right)^[2] s).replay.position ∧
    digit.message = "Stepped forward 2 step(s)" ∧
    (s.press .right).replay.position = 1 ∧ ((s.press .right).press .left).replay.position = 0 := by
  intro t recording session s digit later
  have length : recording.length = 4 := by decide +kernel
  have playing : s.playing = true := by decide +kernel
  have start : s.replay.position = 0 := by decide +kernel
  have right : (s.press .right).replay.position = 1 := by decide +kernel
  have two : digit.replay.position = 2 := by decide +kernel
  have ended : later.replay.isAtEnd = true := by decide +kernel
  have moved : (s.press .right).replay.position ≠ s.replay.position := by rw [right, start]; decide
  -- What follows needs only these values, and the recording is not run again.
  clear_value recording
  obtain ⟨-, -, -, digits, undone, ticks⟩ := navigation_stays_in_recording recording
    "push 1\npush 2\npush 3" 20 10 [.press (.char ' ')]
  obtain ⟨single, -, -, said⟩ := digits 2 (by decide) (by decide)
  obtain ⟨reached, stops⟩ := ticks playing [.tick, .tick, .tick, .tick] (by simp) (by simp)
  have third : min (s.replay.position + List.count .tick [Event.tick, .tick, .tick, .tick])
      (recording.length - 1) = 3 := by rw [start, length]; rfl
  have message : digit.message =
      s!"Stepped forward {digit.replay.position - s.replay.position} step(s)" := said
  refine ⟨length, playing, start, reached.trans third, ?_, single, ?_, right, (undone moved).trans start⟩
  · exact Bool.eq_false_iff.mpr fun runs => by rw [stops.mp runs] at ended; cases ended
  · rw [message, two, start]
    decide +kernel

end Session
end StackMachine
