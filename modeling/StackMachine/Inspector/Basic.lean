import StackMachine.View.TraceView
import StackMachine.View.Window
import StackMachine.Replay

/-! The inspector: a replay under keys and a clock. Keys step, jump, play and scroll; a tick of the
clock steps while playing. Nothing here draws. -/
namespace StackMachine

inductive Focus where
  | trace
  | stack
  | heap
  deriving DecidableEq, Repr, Inhabited

def Focus.next : Focus → Focus
  | .trace => .stack
  | .stack => .heap
  | .heap => .trace

inductive Key where
  | char (c : Char)
  | left
  | right
  | up
  | down
  | tab
  | enter
  | backspace
  | other
  deriving DecidableEq, Repr, Inhabited

structure Inspector where
  replay : Replay
  source : String
  focus : Focus := .trace
  traceScroll : View.TraceScroll := {}
  stackScroll : View.ListScroll := {}
  heapScroll : View.ListScroll := {}
  quitting : Bool := false
  message : String := "Ready!"
  playing : Bool := false
  deriving DecidableEq, Repr, Inhabited

namespace Inspector

def ofRecording (recording : Recording) (source : String) : Inspector :=
  { replay := ⟨recording, 0⟩, source := source }

def arrivalMessage (r : Replay) : String :=
  if r.isAtEnd then
    match r.recording.outcome with
    | .halted code => s!"Halted with exit code {code}"
    | .truncated _ => "History ends here: snapshot limit reached"
    | .failed .. => "Stepped forward"
  else "Stepped forward"

def stepForward (s : Inspector) : Inspector :=
  match Replay.forward s.replay with
  | .ok _ next => { s with replay := next, message := arrivalMessage next }
  | .error e stay => { s with replay := stay, message := s!"Cannot step forward: {e.message}" }

def stepBackward (s : Inspector) : Inspector :=
  match Replay.backward s.replay with
  | .ok _ next => { s with replay := next, message := "Stepped backward" }
  | .error e stay => { s with replay := stay, message := s!"Cannot step backward: {e.message}" }

def stepMany (s : Inspector) (n : Nat) : Inspector :=
  let (taken, replay) := s.replay.forwardMany n
  { s with replay := replay, message := s!"Stepped forward {taken} step(s)" }

/-- Scrolling up moves the marked line of the trace down, and the window of a list up. -/
def scrollUp (s : Inspector) : Inspector :=
  match s.focus with
  | .trace =>
      let target := s.traceScroll.target.map (Word.saturatingAdd · 1)
      { s with traceScroll := { s.traceScroll with target := target } }
  | .stack =>
      { s with stackScroll := { s.stackScroll with offset := s.stackScroll.offset - 1 } }
  | .heap =>
      { s with heapScroll := { s.heapScroll with offset := s.heapScroll.offset - 1 } }

def scrollDown (s : Inspector) : Inspector :=
  match s.focus with
  | .trace =>
      let target := s.traceScroll.target.map (· - 1)
      { s with traceScroll := { s.traceScroll with target := target } }
  | .stack =>
      let offset := Word.saturatingAdd s.stackScroll.offset 1
      { s with stackScroll := { s.stackScroll with offset := offset } }
  | .heap =>
      let offset := Word.saturatingAdd s.heapScroll.offset 1
      { s with heapScroll := { s.heapScroll with offset := offset } }

def pause (s : Inspector) : Inspector := { s with playing := false }

def togglePlaying (s : Inspector) : Inspector :=
  { s with
    playing := !s.playing
    message := if s.playing then "Paused" else "Playing..." }

def press (s : Inspector) : Key → Inspector
  | .char c =>
      if c = 'q' || c = 'Q' then { s with quitting := true }
      else if '1' ≤ c && c ≤ '9' then s.pause.stepMany (c.toNat - '0'.toNat)
      else if c = ' ' then s.togglePlaying
      else s
  | .tab => { s with focus := s.focus.next }
  | .left => s.pause.stepBackward
  | .right => s.pause.stepForward
  | .up => s.scrollUp
  | .down => s.scrollDown
  | .enter => { s.pause with replay := s.replay.toEnd, message := "Jumped to end" }
  | .backspace => { s.pause with replay := s.replay.toStart, message := "Jumped to start" }
  | .other => s

/-- While playing, time takes one step and stops at the end. -/
def tick (s : Inspector) : Inspector :=
  if s.playing then
    let stepped := s.stepForward
    if stepped.replay.isAtEnd then stepped.pause else stepped
  else s

end Inspector
end StackMachine
