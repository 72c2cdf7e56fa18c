import StackMachine.View.Window
import StackMachine.Trace
import StackMachine.Text.Count

/-! The trace pane: the lines of the source with their numbers. The line of the next operation, or
of one that failed, is marked and kept at a target row of the window. -/
namespace StackMachine.View

/-- The first line shown, and the row where the marked line is kept, once a draw has chosen it. -/
structure TraceScroll where
  offset : Nat := 0
  target : Option Nat := none
  deriving DecidableEq, Repr, Inhabited

/-- The row of the marked line in a window, half way down by default. -/
def TraceScroll.targetRow (s : TraceScroll) (visible : Nat) : Nat :=
  min (s.target.getD (visible / 2)) (visible - 1)

theorem TraceScroll.targetRow_lt (s : TraceScroll) (height : Nat) :
    s.targetRow (visibleRows height) < visibleRows height := by
  unfold targetRow visibleRows
  omega

/-- Move the window so that the line `current`, counted from one, comes to the target row as far as
there are lines; other numbers leave the window where it is. -/
def TraceScroll.follow (s : TraceScroll) (current total visible : Nat) : TraceScroll :=
  let row := s.targetRow visible
  ⟨if 0 < current ∧ current ≤ total then min (current - 1 - row) (total - visible) else s.offset,
    some row⟩

def mnemonicStyle : Style := Palette.bold Palette.keyword

def operandStyle : Style := Palette.plain Palette.number

def commentStyle : Style := Palette.plain Palette.comment

def codeSpans : List (List Char) → List Span
  | [] => []
  | first :: rest => ⟨first, mnemonicStyle⟩ :: rest.map fun piece => ⟨piece, operandStyle⟩

def commentSpans (comment : List Char) : List Span :=
  if comment.isEmpty then [] else [⟨comment, commentStyle⟩]

/-- A source line in styled pieces, cut after every blank of the code and before the comment. -/
def highlight (line : List Char) : List Span :=
  codeSpans (Text.blankPieces (Trace.code line)) ++ commentSpans (Trace.comment line)

theorem codeSpans_text (pieces : List (List Char)) :
    (codeSpans pieces).flatMap (·.text) = pieces.flatten := by
  cases pieces with
  | nil => rfl
  | cons first rest => simp [codeSpans, List.flatMap_map, List.flatMap_id']

theorem commentSpans_text (comment : List Char) :
    (commentSpans comment).flatMap (·.text) = comment := by
  cases comment <;> simp [commentSpans]

theorem highlight_text (line : List Char) : (highlight line).flatMap (·.text) = line := by
  have whole : Trace.code line ++ Trace.comment line = line := List.takeWhile_append_dropWhile
  rw [highlight, List.flatMap_append, codeSpans_text, commentSpans_text,
    Text.blankPieces_flatten, whole]

inductive Mark where
  | failed
  | next
  | unmarked
  deriving DecidableEq, Repr, Inhabited

def Mark.ofLine (nextLine errorLine : Option Nat) (line : Nat) : Mark :=
  if errorLine = some line then .failed else if nextLine = some line then .next else .unmarked

def Mark.sign : Mark → String
  | .failed => "✗ "
  | .next => "▶ "
  | .unmarked => "  "

def Mark.style : Mark → Style
  | .failed => Palette.bold Palette.error
  | .next => Palette.bold Palette.secondary
  | .unmarked => Palette.plain Palette.comment

def Mark.paint (mark : Mark) (span : Span) : Span :=
  match mark with
  | .failed => { span with style := { fg := Color.white, bg := Palette.error, bold := true } }
  | .next => { span with style := { span.style with bg := Palette.currentLine } }
  | .unmarked => span

theorem Mark.paint_text (mark : Mark) (span : Span) : (mark.paint span).text = span.text := by
  cases mark <;> rfl

def traceRow (mark : Mark) (number : Nat) (line : List Char) : Row where
  spans := .styled mark.style mark.sign :: ⟨Text.padded 4 number ++ [' '], mark.style⟩ ::
    (highlight line).map mark.paint

structure TraceView where
  source : String
  nextLine : Option Nat := none
  errorLine : Option Nat := none
  deriving DecidableEq, Repr, Inhabited

def TraceView.current (view : TraceView) : Nat := (view.errorLine.or view.nextLine).getD 0

def TraceView.rows (view : TraceView) : List Row :=
  ((Text.lines view.source.toList).zipIdx 1).map fun entry =>
    traceRow (.ofLine view.nextLine view.errorLine entry.2) entry.2 entry.1

def drawTrace (screen : Screen) (area : Area) (view : TraceView) (focused : Bool)
    (scroll : TraceScroll) : Screen × TraceScroll :=
  let visible := visibleRows area.height
  let scroll := scroll.follow view.current view.rows.length visible
  let screen := screen.border area " Trace " (Palette.borderStyle focused)
  (screen.writeRows area.inside (window scroll.offset visible view.rows), scroll)

end StackMachine.View
