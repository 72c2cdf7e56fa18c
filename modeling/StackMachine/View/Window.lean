import StackMachine.View.Palette
import StackMachine.Value.Text

/-! What the list panes share: the window on their rows, and how values are shown. A pane of height
`h` shows `h - 2` rows, and counts as showing one if it is lower than that. -/
namespace StackMachine.View

def visibleRows (height : Nat) : Nat := max (height - 2) 1

/-- The first row shown, and the number of rows at the last draw. -/
structure ListScroll where
  offset : Nat := 0
  count : Nat := 0
  deriving DecidableEq, Repr, Inhabited

/-- The window jumps to the end when rows were added and else stays, as far as there are rows. -/
def ListScroll.follow (s : ListScroll) (total visible : Nat) : ListScroll :=
  ⟨if s.count < total then total - visible else min s.offset (total - visible), total⟩

theorem ListScroll.follow_offset_le (s : ListScroll) (total visible : Nat) :
    (s.follow total visible).offset ≤ total - visible := by
  unfold follow
  dsimp only
  split <;> omega

def window {α : Type} (offset visible : Nat) (rows : List α) : List α :=
  (rows.drop offset).take visible

def drawList (screen : Screen) (area : Area) (title : String) (focused : Bool)
    (scroll : ListScroll) (rows : List Row) : Screen × ListScroll :=
  let visible := visibleRows area.height
  let scroll := scroll.follow rows.length visible
  let screen := screen.border area title (Palette.borderStyle focused)
  (screen.writeRows area.inside (window scroll.offset visible rows), scroll)

/-- Whole numbers below `10 ^ 9` in size as integers, all else as the value's text. -/
def valueChars (v : Value) : List Char :=
  if v.isIntegral && v.toInteger.natAbs < 1000000000 then v.integerText else v.textChars

def styledPieces (pieces : List String) (styles : List Style) : List Span :=
  List.zipWith (fun piece style => .styled style piece) pieces styles

theorem styledPieces_text {pieces : List String} {styles : List Style}
    (same : pieces.length = styles.length) :
    (styledPieces pieces styles).flatMap (·.text) = pieces.flatMap String.toList := by
  induction pieces generalizing styles with
  | nil => rfl
  | cons piece rest ih =>
    cases styles with
    | nil => cases same
    | cons style styles =>
      simp only [styledPieces, List.zipWith_cons_cons, List.flatMap_cons, Span.styled]
      exact congrArg _ (ih (Nat.succ.inj same))

end StackMachine.View
