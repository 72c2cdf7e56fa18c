import StackMachine.Inspector.Basic
import StackMachine.View.StackView
import StackMachine.View.HeapView
import StackMachine.View.StatusBar

/-! What the inspector shows: the trace on the left, the stack over the heap on the right, and a
status bar below. A draw also settles the windows of the panes, and changes nothing else. -/
namespace StackMachine.Inspector

def errorIndex? : Fault → Option Nat
  | .invalidAddress .stack index _ => some index
  | _ => none

def errorAddress? : Fault → Option Nat
  | .invalidAddress .heap index _ => some index
  | .invalidFree address _ => some address
  | _ => none

def failure? (s : Inspector) : Option (Nat × Fault) := s.replay.visibleFailure?

def traceView (s : Inspector) : View.TraceView where
  source := s.source
  nextLine := s.replay.lineAt? s.replay.nextOpIndex
  errorLine := s.failure?.bind fun failure => s.replay.lineAt? failure.1

def statusView (s : Inspector) : View.StatusView where
  message := match s.failure? with
    | some (_, fault) => s!"panic: {fault.message} (exit {fault.exitCode})"
    | none => s.message
  current := s.replay.position
  total := s.replay.length
  isError := s.failure?.isSome
  isPlaying := s.playing

/-- Where the panes stand: the status bar on the last line, the trace on the left above it, the
stack on the right over the heap. -/
structure Layout where
  trace : Area
  stack : Area
  heap : Area
  status : Area
  deriving DecidableEq, Repr, Inhabited

def Layout.ofArea (area : Area) : Layout :=
  let main := area.upper (area.height - 1)
  let column := Area.share 45 main.width
  let side := main.right column
  let row := Area.share 50 side.height
  ⟨main.left column, side.upper row, side.lower row, area.lower (area.height - 1)⟩

def drawState (s : Inspector) (layout : Layout) (screen : Screen) : Screen × Inspector :=
  match s.replay.current? with
  | none => (screen, s)
  | some snapshot =>
      let fault := s.failure?.map (·.2)
      let (screen, stackScroll) := View.drawStack screen layout.stack snapshot.machine
        (fault.bind errorIndex?) (s.focus == .stack) s.stackScroll
      let (screen, heapScroll) := View.drawHeap screen layout.heap snapshot.machine.heap
        (fault.bind errorAddress?) (s.focus == .heap) s.heapScroll
      (screen, { s with stackScroll := stackScroll, heapScroll := heapScroll })

def drawOn (s : Inspector) (layout : Layout) (screen : Screen) : Screen × Inspector :=
  let (screen, traceScroll) := View.drawTrace screen layout.trace s.traceView
    (s.focus == .trace) s.traceScroll
  let (screen, s) := { s with traceScroll := traceScroll }.drawState layout screen
  (View.drawStatus screen layout.status s.statusView, s)

def draw (s : Inspector) (width height : Nat) : Screen × Inspector :=
  let screen := Screen.blank width height
  s.drawOn (.ofArea screen.area) screen

end StackMachine.Inspector
