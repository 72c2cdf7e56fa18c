import StackMachine.View.Window
import StackMachine.Machine.Frame
import StackMachine.Text.Count

/-! The stack pane: the return register, the registers of the stack, and the live slots from the
lowest on, grouped into frames by the chain of saved base pointers. -/
namespace StackMachine.View

inductive StackRow where
  | returnRegister (v : Value)
  | registers (pointer capacity base depth : Nat)
  | empty
  | globals
  | frame (number link : Nat)
  | slot (index : Nat) (v : Value) (isLink : Bool) (hooks : List Nat)
  deriving DecidableEq, Repr, Inhabited

def hooksAt (m : Machine) (index : Nat) : List Nat :=
  m.hooks.toList.zipIdx.filterMap fun entry =>
    if entry.1 = some (index + 1) then some entry.2 else none

def slotRows (m : Machine) (links : List Nat) (index : Nat) (v : Value) : List StackRow :=
  let row := StackRow.slot index v (links.contains index) (hooksAt m index)
  match links.findIdx? (· == index) with
  | some i => [.frame (i + 1) index, row]
  | none => [row]

/-- Slots below the first link are globals. -/
def hasGlobals (m : Machine) (links : List Nat) : Bool :=
  match links with
  | [] => m.stack.pointer != 0
  | first :: _ => first != 0

def stackRows (m : Machine) : List StackRow :=
  let links := m.frameLinks.reverse
  [.returnRegister m.returnRegister,
    .registers m.stack.pointer m.stack.capacity m.basePointer m.frameDepth] ++
    (if m.stack.pointer = 0 then [.empty] else []) ++
    (if hasGlobals m links then [.globals] else []) ++
    m.stack.live.zipIdx.flatMap fun entry => slotRows m links entry.2 entry.1

def StackRow.reading : StackRow → List String
  | .returnRegister v => ["return register: ", .ofList (valueChars v)]
  | .registers pointer capacity base depth =>
      [s!"sp {pointer} / {capacity} │ bp {base} │ depth {depth}"]
  | .empty => ["(empty)"]
  | .globals => ["▸ Globals"]
  | .frame number link => ["▸ ", s!"Frame {number} ", "│ ", s!"bp {link + 1}"]
  | .slot index v isLink hooks =>
      ["  [", .ofList (Text.padded 4 index), "] ", .ofList (valueChars v)] ++
        (if isLink then ["  ◂ saved bp"] else []) ++ hooks.map fun hook => s!"  ◂ hook {hook}"

/-- The styles of the pieces. A slot that an error is about has its position marked. -/
def StackRow.styles (errorIndex : Option Nat) : StackRow → List Style
  | .returnRegister _ => [Palette.plain Palette.returnValue, Palette.plain Palette.number]
  | .registers .. | .empty => [{}]
  | .globals => [Palette.bold Palette.function]
  | .frame .. =>
      [Palette.plain Palette.secondary, Palette.plain Palette.comment, Palette.plain Palette.comment,
        Palette.bold Palette.function]
  | .slot index _ isLink hooks =>
      let style := if errorIndex = some index then Palette.bold Palette.error
        else Palette.plain Palette.comment
      [style, style, style, Palette.plain Palette.number] ++
        (if isLink then [Palette.plain Palette.mutedFunction] else []) ++
        hooks.map fun _ => Palette.plain Palette.typeName

def StackRow.ground : StackRow → Style
  | .registers .. | .empty => Palette.plain Palette.comment
  | _ => {}

def StackRow.row (errorIndex : Option Nat) (row : StackRow) : Row :=
  ⟨styledPieces row.reading (row.styles errorIndex), row.ground⟩

def drawStack (screen : Screen) (area : Area) (m : Machine) (errorIndex : Option Nat)
    (focused : Bool) (scroll : ListScroll) : Screen × ListScroll :=
  drawList screen area " Operand Stack " focused scroll ((stackRows m).map (·.row errorIndex))

end StackMachine.View
