import StackMachine.View.Palette

/-! The status bar: the step and a message on the left, the keys and the state of the replay on the
right. -/
namespace StackMachine.View

structure StatusView where
  message : String
  current : Nat
  total : Nat
  isError : Bool := false
  isPlaying : Bool := false
  deriving DecidableEq, Repr, Inhabited

namespace StatusView

def barStyle : Style := { bg := Palette.currentLine }

def barText (color : Color) : Style := { fg := color, bg := Palette.currentLine }

def keyStyle : Style := { fg := Color.black, bg := Palette.comment }

def leftSpans (view : StatusView) : List Span :=
  [.styled (Palette.badge (if view.isError then Palette.error else Palette.primary))
      s!" Step {view.current}/{view.total - 1} ",
    .styled (barText Palette.comment) " | ",
    .styled (barText (if view.isError then Palette.error else Palette.fg)) s!" {view.message} "]

def separator : Span := .styled (barText Palette.comment) "│"

def keyHint (key description : String) : List Span :=
  [.styled keyStyle key, .styled (barText Palette.fg) description]

def gap : List Span := [separator, .styled (barText Palette.fg) " "]

def keySpans : List Span :=
  keyHint " ←/→ " " step " ++ gap ++ keyHint " ⎵ " " play " ++ gap ++
    keyHint " ↵ / ⌫ " " end/start " ++ gap ++ keyHint "q" " quit "

def indicator? (view : StatusView) : Option Span :=
  if view.isPlaying then some (.styled (Palette.badge Palette.secondary) " ▶ PLAYING ")
  else if view.isError then some (.styled (Palette.badge Palette.error) " PANIC ")
  else if view.total ≤ view.current + 1 then some (.styled (Palette.badge Palette.error) " END ")
  else if view.current = 0 then some (.styled (Palette.badge Palette.success) " START ")
  else none

def rightSpans (view : StatusView) : List Span :=
  match view.indicator? with
  | some state => keySpans ++ [separator, state]
  | none => keySpans

end StatusView

/-- Each half is filled with the colour of the bar. The right half ends at its last cell, and loses
its end if it is too long. -/
def drawStatus (screen : Screen) (area : Area) (view : StatusView) : Screen :=
  if area.isEmpty then screen
  else
    let half := Area.share 50 area.width
    let left := area.left half
    let right := area.right half
    let screen := screen.tint left StatusView.barStyle
    let screen := screen.write left.x left.y left.width view.leftSpans
    let screen := screen.tint right StatusView.barStyle
    let width := (view.rightSpans.flatMap (·.glyphs)).length
    let start := right.width - width
    screen.write (right.x + start) right.y (right.width - start) view.rightSpans

end StackMachine.View
