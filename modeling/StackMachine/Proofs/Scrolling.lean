import Mathlib
import StackMachine.Proofs.Listing
import StackMachine.Proofs.Navigation
import StackMachine.Proofs.Recording

/-! Scrolling. A draw moves the windows of the panes and then shows what is in them, so the screen is a
function of the inspector that the draw leaves behind: this is `Inspector.screen`. Keys move the windows as
they like, and between two draws the rows and the height of a pane may change; but each draw puts the window
of a list back on its rows, and that of the trace back on the line that is marked. -/
namespace StackMachine

namespace View

variable {α : Type}

theorem window_length (offset visible : Nat) (rows : List α) :
    (window offset visible rows).length = min visible (rows.length - offset) := by
  rw [window, List.length_take, List.length_drop]

theorem window_getElem? (offset visible : Nat) (rows : List α) (i : Nat) :
    (window offset visible rows)[i]? = if i < visible then rows[offset + i]? else none := by
  rw [window, List.getElem?_take, List.getElem?_drop]

structure Pane where
  area : Area
  title : String
  offset : Nat
  rows : List Row
  deriving DecidableEq, Repr, Inhabited

namespace Pane

def visible (pane : Pane) : Nat := visibleRows pane.area.height

def shown (pane : Pane) : List Row := window pane.offset pane.visible pane.rows

def draw (pane : Pane) (screen : Screen) (focused : Bool) : Screen :=
  (screen.border pane.area pane.title (Palette.borderStyle focused)).writeRows pane.area.inside pane.shown

/-- A line of a text stands in the window with its number and a mark. -/
def ShowsLine (pane : Pane) (lines : List (List Char)) (mark : Mark) (number : Nat) : Prop :=
  pane.offset ≤ number - 1 ∧ number - 1 < pane.offset + pane.visible ∧
    ∃ line, lines[number - 1]? = some line ∧
      pane.shown[number - 1 - pane.offset]? = some (traceRow mark number line)

theorem shown_getElem? {pane : Pane} {k : Nat} (low : pane.offset ≤ k)
    (high : k < pane.offset + pane.visible) : pane.shown[k - pane.offset]? = pane.rows[k]? := by
  rw [shown, window_getElem?, if_pos (Nat.sub_lt_left_of_lt_add low high), Nat.add_sub_cancel' low]

theorem shown_length_of_le {pane : Pane} (fits : pane.offset ≤ pane.rows.length - pane.visible)
    (enough : pane.visible ≤ pane.rows.length) : pane.shown.length = pane.visible := by
  rw [shown, window_length]
  omega

/-- From three lines on, there is a line inside the border for each row of the window. -/
theorem inside_height {pane : Pane} (high : 3 ≤ pane.area.height) :
    pane.area.inside.height = pane.visible := by
  simp only [visible, visibleRows, Area.inside]
  omega

end Pane

theorem painted_text (mark : Mark) (line : List Char) :
    ((highlight line).map mark.paint).flatMap (·.text) = line := by
  rw [List.flatMap_map]
  simp only [Mark.paint_text]
  exact highlight_text line

theorem TraceScroll.follow_reaches (s : TraceScroll) {current total : Nat} (height : Nat)
    (positive : 0 < current) (inside : current ≤ total) :
    (s.follow current total (visibleRows height)).offset ≤ current - 1 ∧
      current - 1 < (s.follow current total (visibleRows height)).offset + visibleRows height := by
  have row := s.targetRow_lt height
  simp only [follow, if_pos (And.intro positive inside)]
  omega

namespace TraceView

variable {view : TraceView}

theorem rows_getElem? (view : TraceView) (i : Nat) :
    view.rows[i]? = ((Text.lines view.source.toList)[i]?).map fun line =>
      traceRow (.ofLine view.nextLine view.errorLine (i + 1)) (i + 1) line := by
  rw [rows, List.getElem?_map, List.getElem?_zipIdx, Option.map_map, Nat.add_comm 1 i]
  rfl

theorem rows_length (view : TraceView) : view.rows.length = (Text.lines view.source.toList).length := by
  rw [rows, List.length_map, List.length_zipIdx]

theorem showsLine (view : TraceView) {pane : Pane} (same : pane.rows = view.rows) {number : Nat}
    (positive : 0 < number) (inside : number ≤ (Text.lines view.source.toList).length)
    (low : pane.offset ≤ number - 1) (high : number - 1 < pane.offset + pane.visible) :
    pane.ShowsLine (Text.lines view.source.toList) (.ofLine view.nextLine view.errorLine number) number := by
  have line : (Text.lines view.source.toList)[number - 1]? = some _ :=
    List.getElem?_eq_getElem (Nat.sub_one_lt_of_le positive inside)
  refine ⟨low, high, _, line, ?_⟩
  rw [Pane.shown_getElem? low high, same, rows_getElem?, line, Nat.sub_add_cancel positive]
  rfl

theorem current_failed {number : Nat} (failed : view.errorLine = some number) :
    view.current = number ∧ Mark.ofLine view.nextLine view.errorLine number = .failed := by
  rw [current, Mark.ofLine, failed, if_pos rfl]
  exact ⟨rfl, rfl⟩

theorem current_next {number : Nat} (sound : view.errorLine = none) (next : view.nextLine = some number) :
    view.current = number ∧ Mark.ofLine view.nextLine view.errorLine number = .next := by
  rw [current, Mark.ofLine, sound, next, if_neg (by simp), if_pos rfl]
  exact ⟨rfl, rfl⟩

end TraceView
end View

open View

theorem Replay.Inside.current {r : Replay} (inside : r.Inside) (filled : 0 < r.length) :
    ∃ snapshot, r.current? = some snapshot := by
  have before : r.position < r.recording.history.snapshots.size := by
    simp only [Inside, length, Recording.length] at inside filled
    omega
  exact ⟨_, Array.getElem?_eq_getElem before⟩

theorem Replay.visibleFailure_outcome {r : Replay} {i : Nat} {fault : Fault}
    (seen : r.visibleFailure? = some (i, fault)) : r.recording.outcome = .failed i fault := by
  rw [visibleFailure?] at seen
  split at seen
  case h_1 index cause failed =>
    split at seen
    case isTrue =>
      cases seen
      exact failed
    case isFalse => cases seen
  case h_2 => cases seen

namespace Inspector

variable {s : Inspector}

def tracePane (s : Inspector) (area : Area) : Pane :=
  ⟨area, " Trace ", s.traceScroll.offset, s.traceView.rows⟩

def stackPane (s : Inspector) (area : Area) (m : Machine) : Pane :=
  ⟨area, " Operand Stack ", s.stackScroll.offset,
    (stackRows m).map (·.row ((s.failure?.map (·.2)).bind errorIndex?))⟩

def heapPane (s : Inspector) (area : Area) (m : Machine) : Pane :=
  ⟨area, " Heap Memory ", s.heapScroll.offset,
    (heapRows m.heap).map (·.row ((s.failure?.map (·.2)).bind errorAddress?))⟩

/-- The screen that shows the windows where they are. -/
def screen (s : Inspector) (layout : Layout) (blank : Screen) : Screen :=
  let trace := (s.tracePane layout.trace).draw blank (s.focus == .trace)
  let panes := match s.replay.current? with
    | none => trace
    | some snapshot =>
        let stack := (s.stackPane layout.stack snapshot.machine).draw trace (s.focus == .stack)
        (s.heapPane layout.heap snapshot.machine).draw stack (s.focus == .heap)
  drawStatus panes layout.status s.statusView

theorem drawOn_screen (s : Inspector) (layout : Layout) (blank : Screen) :
    (s.drawOn layout blank).1 = (s.drawOn layout blank).2.screen layout blank := by
  cases state : s.replay.current? with
  | none =>
    simp only [drawOn, drawState, screen, state]
    rfl
  | some snapshot =>
    simp only [drawOn, drawState, screen, state]
    rfl

theorem drawOn_traceScroll (s : Inspector) (layout : Layout) (blank : Screen) :
    (s.drawOn layout blank).2.traceScroll =
      s.traceScroll.follow s.traceView.current s.traceView.rows.length
        (visibleRows layout.trace.height) := by
  cases state : s.replay.current? with
  | none =>
    simp only [drawOn, drawState, state]
    rfl
  | some snapshot =>
    simp only [drawOn, drawState, state]
    rfl

theorem drawOn_replay (s : Inspector) (layout : Layout) (blank : Screen) :
    (s.drawOn layout blank).2.replay = s.replay := by
  obtain ⟨trace, stack, heap, drawn⟩ := s.drawOn_eq layout blank
  rw [drawn]

theorem drawOn_source (s : Inspector) (layout : Layout) (blank : Screen) :
    (s.drawOn layout blank).2.source = s.source := by
  obtain ⟨trace, stack, heap, drawn⟩ := s.drawOn_eq layout blank
  rw [drawn]

theorem drawOn_traceView (s : Inspector) (layout : Layout) (blank : Screen) :
    (s.drawOn layout blank).2.traceView = s.traceView := by
  simp only [traceView, failure?, drawOn_replay, drawOn_source]

theorem drawOn_lists {snapshot : Snapshot} (state : s.replay.current? = some snapshot) (layout : Layout)
    (blank : Screen) :
    let drawn := (s.drawOn layout blank).2
    ∀ pane ∈ [drawn.stackPane layout.stack snapshot.machine, drawn.heapPane layout.heap snapshot.machine],
      pane.offset ≤ pane.rows.length - pane.visible := by
  intro drawn
  have stack : drawn.stackScroll = s.stackScroll.follow
      (drawn.stackPane layout.stack snapshot.machine).rows.length (visibleRows layout.stack.height) := by
    simp only [drawn, drawOn, drawState, state]
    rfl
  have heap : drawn.heapScroll = s.heapScroll.follow
      (drawn.heapPane layout.heap snapshot.machine).rows.length (visibleRows layout.heap.height) := by
    simp only [drawn, drawOn, drawState, state]
    rfl
  rw [List.forall_mem_cons, List.forall_mem_singleton]
  refine ⟨?_, ?_⟩
  · change drawn.stackScroll.offset ≤ _
    rw [stack]
    exact ListScroll.follow_offset_le ..
  · change drawn.heapScroll.offset ≤ _
    rw [heap]
    exact ListScroll.follow_offset_le ..

theorem drawOn_shows_line {mark : Mark} {number : Nat} (layout : Layout) (blank : Screen)
    (marked : s.traceView.current = number ∧
      Mark.ofLine s.traceView.nextLine s.traceView.errorLine number = mark)
    (positive : 0 < number) (inside : number ≤ (Text.lines s.source.toList).length) :
    ((s.drawOn layout blank).2.tracePane layout.trace).ShowsLine
      (Text.lines s.source.toList) mark number := by
  obtain ⟨rfl, rfl⟩ := marked
  have total : s.traceView.rows.length = (Text.lines s.source.toList).length := s.traceView.rows_length
  obtain ⟨low, high⟩ := s.traceScroll.follow_reaches layout.trace.height positive
    (inside.trans_eq total.symm)
  rw [tracePane, drawOn_traceScroll, drawOn_traceView]
  exact s.traceView.showsLine rfl positive inside low high

theorem drawOn_shows_failure (accepted : Trace.parse s.source = .ok s.replay.recording.trace) {i : Nat}
    {fault : Fault} (seen : s.replay.visibleFailure? = some (i, fault)) {traced : TracedOp}
    (found : s.replay.recording.trace.ops[i]? = some traced) (layout : Layout) (blank : Screen) :
    0 < traced.line ∧ ((s.drawOn layout blank).2.tracePane layout.trace).ShowsLine
      (Text.lines s.source.toList) .failed traced.line := by
  have failed : s.traceView.errorLine = some traced.line := by
    simp only [traceView, failure?, seen, Option.bind_some, Replay.lineAt?, found, Option.map_some]
  obtain ⟨positive, last⟩ := Trace.parse_line accepted (List.mem_of_getElem? found)
  exact ⟨positive, drawOn_shows_line layout blank (TraceView.current_failed failed) positive last⟩

theorem drawOn_shows_next (accepted : Trace.parse s.source = .ok s.replay.recording.trace)
    (sound : s.replay.visibleFailure? = none) {traced : TracedOp}
    (found : s.replay.recording.trace.ops[s.replay.nextOpIndex]? = some traced) (layout : Layout)
    (blank : Screen) :
    0 < traced.line ∧ ((s.drawOn layout blank).2.tracePane layout.trace).ShowsLine
      (Text.lines s.source.toList) .next traced.line := by
  have unmarked : s.traceView.errorLine = none := by
    simp only [traceView, failure?, sound, Option.bind_none]
  have next : s.traceView.nextLine = some traced.line := by
    simp only [traceView, Replay.lineAt?, found, Option.map_some]
  obtain ⟨positive, last⟩ := Trace.parse_line accepted (List.mem_of_getElem? found)
  exact ⟨positive, drawOn_shows_line layout blank (TraceView.current_next unmarked next) positive last⟩

theorem tracePane_shown {area : Area} {i : Nat} {row : Row}
    (shown : (s.tracePane area).shown[i]? = some row) :
    ∃ (line : List Char) (mark : Mark) (pieces : List Span),
      (Text.lines s.source.toList)[s.traceScroll.offset + i]? = some line ∧
      row.spans = .styled mark.style mark.sign ::
        ⟨Text.padded 4 (s.traceScroll.offset + i + 1) ++ [' '], mark.style⟩ :: pieces ∧
      pieces.flatMap (·.text) = line := by
  rw [Pane.shown, window_getElem?] at shown
  split_ifs at shown
  rw [tracePane, TraceView.rows_getElem?] at shown
  obtain ⟨line, found, rfl⟩ := Option.map_eq_some_iff.mp shown
  exact ⟨line, _, _, found, rfl, painted_text _ line⟩

theorem press_source (s : Inspector) (key : Key) : (s.press key).source = s.source := by
  cases key with
  | char c =>
    rw [press]
    split_ifs <;> rfl
  | left =>
    rw [press, stepBackward]
    cases Replay.backward s.pause.replay <;> rfl
  | right =>
    rw [press, stepForward]
    cases Replay.forward s.pause.replay <;> rfl
  | up =>
    rw [press, scrollUp]
    cases s.focus <;> rfl
  | down =>
    rw [press, scrollDown]
    cases s.focus <;> rfl
  | tab | enter | backspace | other => rfl

theorem tick_source (s : Inspector) : s.tick.source = s.source := by
  have stepped : s.stepForward.source = s.source := by
    rw [stepForward]
    cases Replay.forward s.replay <;> rfl
  rw [tick]
  dsimp only
  split_ifs
  · exact stepped
  · exact stepped
  · rfl

end Inspector

namespace Session

theorem play_source (s : Session) (events : List Event) :
    (s.play events).inspector.source = s.inspector.source := by
  induction events generalizing s with
  | nil => rfl
  | cons event rest ih =>
    rw [play_cons, ih]
    cases event with
    | press key => exact Inspector.press_source _ key
    | tick => exact Inspector.tick_source _
    | draw => exact Inspector.drawOn_source ..
    | resize width height => rfl

theorem play_divide (s : Session) (events : List Event) : (s.play events).divide = s.divide := by
  induction events generalizing s with
  | nil => rfl
  | cons event rest ih =>
    rw [play_cons, ih]
    cases event <;> rfl

/-- Windows, whichever way the screen is divided among the panes. Whatever has happened before, a draw shows
the windows as it leaves them. If there is a state to show, those of the stack and the heap end with their
rows or before, so that they are full if there are rows enough, with a line for each row in panes that have
any room. The target row of the trace is one of its window, and the line of the failure, or else of the
operation that comes next, is in that window under its mark. Every line there reads as in the source, behind
its mark and its number. -/
theorem draw_keeps_windows_on_rows (m : Machine) (limit width height : Nat)
    (divide : Area → Inspector.Layout) (events : List Event) {source : String} {t : Trace}
    (accepted : Trace.parse source = .ok t) :
    let recording := Recording.record t m limit
    let session := (start recording source width height divide).play events
    let s := (session.after .draw).inspector
    let layout := divide ⟨0, 0, session.width, session.height⟩
    let lines := Text.lines source.toList
    let trace := s.tracePane layout.trace
    session.draw.1 = s.screen layout (.blank session.width session.height) ∧
    (divide = .ofArea → session.draw = session.inspector.draw session.width session.height) ∧
    (0 < recording.length → ∃ snapshot, s.replay.current? = some snapshot ∧
      ∀ pane ∈ [s.stackPane layout.stack snapshot.machine, s.heapPane layout.heap snapshot.machine],
        pane.offset ≤ pane.rows.length - pane.visible ∧
        (pane.visible ≤ pane.rows.length → pane.shown.length = pane.visible) ∧
        (3 ≤ pane.area.height → pane.area.inside.height = pane.visible)) ∧
    (∃ row, s.traceScroll.target = some row ∧ row < trace.visible) ∧
    (∀ i fault, s.replay.visibleFailure? = some (i, fault) →
      ∃ traced, t.ops[i]? = some traced ∧ 0 < traced.line ∧ trace.ShowsLine lines .failed traced.line) ∧
    (s.replay.visibleFailure? = none → ∀ traced, t.ops[s.replay.nextOpIndex]? = some traced →
      0 < traced.line ∧ trace.ShowsLine lines .next traced.line) ∧
    (∀ i row, trace.shown[i]? = some row →
      ∃ (line : List Char) (mark : Mark) (pieces : List Span), lines[trace.offset + i]? = some line ∧
        row.spans = .styled mark.style mark.sign ::
          ⟨Text.padded 4 (trace.offset + i + 1) ++ [' '], mark.style⟩ :: pieces ∧
        pieces.flatMap (·.text) = line) := by
  intro recording session s layout lines trace
  have opened : (start recording source width height divide).inspector.replay.Inside :=
    Nat.lt_of_lt_of_le Nat.one_pos (le_max_right ..)
  obtain ⟨same, inside⟩ := play_replay opened events
  have text : session.inspector.source = source := play_source ..
  have listing : session.inspector.replay.recording.trace = t :=
    (congrArg Recording.trace same).trans (Recording.record_trace t m limit)
  have replay : s.replay = session.inspector.replay := Inspector.drawOn_replay ..
  have shown : Text.lines session.inspector.source.toList = lines := by rw [text]
  have kept : session.divide = divide := play_divide ..
  have divided : layout = session.layout := by rw [Session.layout, kept]
  clear_value layout
  subst divided
  rw [← text, ← listing] at accepted
  refine ⟨Inspector.drawOn_screen .., fun ruled => ?_, fun filled => ?_, ?_, fun i fault seen => ?_,
    fun sound traced next => ?_, fun i row inWindow => ?_⟩
  · rw [draw, Session.layout, kept, ruled]
    rfl
  · obtain ⟨snapshot, state⟩ := inside.current (filled.trans_eq (congrArg Recording.length same).symm)
    refine ⟨snapshot, replay ▸ state, fun pane member => ?_⟩
    have fits := Inspector.drawOn_lists state session.layout _ pane member
    exact ⟨fits, Pane.shown_length_of_le fits, Pane.inside_height⟩
  · have scrolled := session.inspector.drawOn_traceScroll session.layout
      (.blank session.width session.height)
    exact ⟨_, congrArg TraceScroll.target scrolled, TraceScroll.targetRow_lt ..⟩
  · rw [replay] at seen
    obtain ⟨-, fails⟩ := Recording.record_failed (same ▸ Replay.visibleFailure_outcome seen)
    obtain ⟨traced, -, found, -⟩ := fails.fails
    have shows := Inspector.drawOn_shows_failure accepted seen (listing ▸ found) session.layout
      (.blank session.width session.height)
    rw [shown] at shows
    exact ⟨traced, found, shows⟩
  · rw [replay] at sound next
    have shows := Inspector.drawOn_shows_next accepted sound (listing ▸ next) session.layout
      (.blank session.width session.height)
    rw [shown] at shows
    exact shows
  · have written : s.source = source := (Inspector.drawOn_source ..).trans text
    obtain ⟨line, mark, pieces, found, spans, read⟩ := Inspector.tracePane_shown inWindow
    rw [written] at found
    exact ⟨line, mark, pieces, found, spans, read⟩

/-- A trace of three lines in a window of one row, after the row has been moved and the screen has become
lower. -/
theorem failing_line_in_lowest_window :
    let source := "push 1\n\nfree"
    let t : Trace := ⟨[⟨.push (.ofNat 1), 1⟩, ⟨.free, 3⟩]⟩
    let session := (start (.record t (.fresh ⟨2, 8, 1⟩) 1000) source 20 10).play
      [.draw, .press .up, .press .enter, .resize 20 4]
    let s := (session.after .draw).inspector
    Trace.parse source = .ok t ∧ session.inspector.traceScroll.target = some 4 ∧
    s.replay.visibleFailure? = some (1, .stackUnderflow "free" 2 1) ∧
    (s.tracePane ⟨0, 0, 9, 3⟩).ShowsLine (Text.lines source.toList) .failed 3 := by
  intro source t session s
  have accepted : Trace.parse source = .ok t := by decide +kernel
  have failed : s.replay.visibleFailure? = some (1, .stackUnderflow "free" 2 1) := by decide +kernel
  obtain ⟨-, -, -, -, failures, -, -⟩ := draw_keeps_windows_on_rows (.fresh ⟨2, 8, 1⟩) 1000 20 10 .ofArea
    [.draw, .press .up, .press .enter, .resize 20 4] accepted
  obtain ⟨traced, found, -, shows⟩ := failures 1 _ failed
  cases found
  exact ⟨accepted, by decide +kernel, failed, shows⟩

end Session
end StackMachine
