import StackMachine.Glyph

/-! A screen of cells that show one glyph each. A style says only what it changes: what it leaves
open keeps the look that is there. Areas are cut to the screen by the cells that they would write: a
cell that is not on the screen is not written. -/
namespace StackMachine

inductive Color where
  | black
  | white
  | rgb (hex : Nat)
  deriving DecidableEq, Repr, Inhabited

structure Style where
  fg : Option Color := none
  bg : Option Color := none
  bold : Bool := false
  deriving DecidableEq, Repr, Inhabited

def Style.over (top under : Style) : Style :=
  ⟨top.fg.or under.fg, top.bg.or under.bg, top.bold || under.bold⟩

structure Span where
  text : List Char
  style : Style := {}
  deriving DecidableEq, Repr, Inhabited

def Span.styled (style : Style) (text : String) : Span := ⟨text.toList, style⟩

def Span.glyphs (span : Span) : List (Glyph × Style) :=
  (Glyph.ofText span.text).map fun glyph => (glyph, span.style)

/-- A line of spans, on a style that covers the whole line. -/
structure Row where
  spans : List Span
  style : Style := {}
  deriving DecidableEq, Repr, Inhabited

structure Cell where
  glyph : Glyph := .char ' '
  style : Style := {}
  deriving DecidableEq, Repr, Inhabited

structure Area where
  x : Nat
  y : Nat
  width : Nat
  height : Nat
  deriving DecidableEq, Repr, Inhabited

namespace Area

/-- The cells of the first part when `percent` of `n` cells are split off. -/
def share (percent n : Nat) : Nat := (n * percent + 50) / 100

def left (a : Area) (width : Nat) : Area := ⟨a.x, a.y, width, a.height⟩

def right (a : Area) (width : Nat) : Area := ⟨a.x + width, a.y, a.width - width, a.height⟩

def upper (a : Area) (height : Nat) : Area := ⟨a.x, a.y, a.width, height⟩

def lower (a : Area) (height : Nat) : Area := ⟨a.x, a.y + height, a.width, a.height - height⟩

def isEmpty (a : Area) : Bool := a.width == 0 || a.height == 0

def inside (a : Area) : Area := ⟨a.x + 1, a.y + 1, a.width - 2, a.height - 2⟩

end Area

structure Screen where
  width : Nat
  height : Nat
  cells : Array Cell
  deriving DecidableEq, Repr, Inhabited

namespace Screen

def blank (width height : Nat) : Screen := ⟨width, height, Array.replicate (width * height) {}⟩

def area (s : Screen) : Area := ⟨0, 0, s.width, s.height⟩

def modifyCell (s : Screen) (x y : Nat) (f : Cell → Cell) : Screen :=
  if x < s.width ∧ y < s.height then ⟨s.width, s.height, s.cells.modify (y * s.width + x) f⟩ else s

/-- Write a glyph over the style that is there. -/
def put (s : Screen) (x y : Nat) (glyph : Glyph) (style : Style) : Screen :=
  s.modifyCell x y fun cell => ⟨glyph, style.over cell.style⟩

def write (s : Screen) (x y limit : Nat) (spans : List Span) : Screen :=
  let glyphs := (spans.flatMap (·.glyphs)).take limit
  (glyphs.zipIdx x).foldl (fun s entry => s.put entry.2 y entry.1.1 entry.1.2) s

def tint (s : Screen) (a : Area) (style : Style) : Screen :=
  (List.range a.height).foldl (fun s j =>
    (List.range a.width).foldl (fun s i =>
      s.modifyCell (a.x + i) (a.y + j) fun cell => ⟨cell.glyph, style.over cell.style⟩) s) s

def writeRows (s : Screen) (a : Area) (rows : List Row) : Screen :=
  ((rows.take a.height).zipIdx a.y).foldl (fun s entry =>
    (s.tint ⟨a.x, entry.2, a.width, 1⟩ entry.1.style).write a.x entry.2 a.width entry.1.spans) s

def column (s : Screen) (x y height : Nat) (c : Char) (style : Style) : Screen :=
  (List.range height).foldl (fun s j => s.put x (y + j) c style) s

def line (s : Screen) (x y width : Nat) (c : Char) (style : Style) : Screen :=
  (List.range width).foldl (fun s i => s.put (x + i) y c style) s

def border (s : Screen) (a : Area) (title : String) (style : Style) : Screen :=
  if a.isEmpty then s
  else
    let right := a.x + a.width - 1
    let bottom := a.y + a.height - 1
    let s := s.column a.x a.y a.height '│' style
    let s := s.line a.x a.y a.width '─' style
    let s := s.column right a.y a.height '│' style
    let s := s.line a.x bottom a.width '─' style
    let s := s.put right bottom '┘' style
    let s := s.put right a.y '┐' style
    let s := s.put a.x bottom '└' style
    let s := s.put a.x a.y '┌' style
    s.write (a.x + 1) a.y (a.width - 2) [⟨title.toList, {}⟩]

def cell (s : Screen) (x y : Nat) : Cell := (s.cells[y * s.width + x]?).getD {}

def rows (s : Screen) : List (List Cell) :=
  (List.range s.height).map fun y => (List.range s.width).map fun x => s.cell x y

end Screen
end StackMachine
