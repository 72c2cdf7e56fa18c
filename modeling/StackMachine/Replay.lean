import StackMachine.History

/-! Recorded runs and a cursor on them. A recording keeps the state before the first operation and
after each one, until the run ends, an operation fails, or the budget is used up. -/
namespace StackMachine

inductive Outcome where
  | halted (code : Nat)
  | failed (opIndex : Nat) (fault : Fault)
  | truncated (opIndex : Nat)
  deriving DecidableEq, Repr, Inhabited

structure Recording where
  trace : Trace
  history : History
  outcome : Outcome
  deriving DecidableEq, Repr, Inhabited

namespace Recording

def extend (index : Nat) (m : Machine) (h : History) : List TracedOp → History × Outcome
  | [] => (h, .halted Trace.success)
  | traced :: rest =>
      match traced.op.apply m with
      | .error fault _ => (h, .failed index fault)
      | .ok flow next =>
          match History.push ⟨next, some index⟩ h with
          | .error _ kept => (kept, .truncated index)
          | .ok _ kept =>
              match flow with
              | .halt => (kept, .halted Trace.success)
              | .next => extend (index + 1) next kept rest

def record (trace : Trace) (m : Machine) (limit : Nat) : Recording :=
  match History.push ⟨m, none⟩ (.empty limit) with
  | .error _ kept => ⟨trace, kept, .truncated 0⟩
  | .ok _ kept =>
      let (history, outcome) := extend 0 m kept trace.ops
      ⟨trace, history, outcome⟩

def length (r : Recording) : Nat := r.history.snapshots.size

end Recording

inductive CursorError where
  | atStart
  | atEnd
  deriving DecidableEq, Repr, Inhabited

def CursorError.message : CursorError → String
  | .atStart => "already at the beginning of execution"
  | .atEnd => "no more snapshots available (execution finished)"

structure Replay where
  recording : Recording
  position : Nat := 0
  deriving DecidableEq, Repr, Inhabited

namespace Replay

def length (r : Replay) : Nat := r.recording.length

def isAtEnd (r : Replay) : Bool := r.length ≤ r.position + 1

def forward : EStateM CursorError Replay Unit := do
  let r ← get
  if r.isAtEnd then throw .atEnd
  set { r with position := r.position + 1 }

def backward : EStateM CursorError Replay Unit := do
  let r ← get
  if r.position = 0 then throw .atStart
  set { r with position := r.position - 1 }

theorem forward_eq (r : Replay) :
    forward r =
      if r.isAtEnd then .error .atEnd r else .ok () { r with position := r.position + 1 } := by
  rw [forward, Action.bind_ok (Action.get_run r)]
  split <;> rfl

theorem backward_eq (r : Replay) :
    backward r =
      if r.position = 0 then .error .atStart r
      else .ok () { r with position := r.position - 1 } := by
  rw [backward, Action.bind_ok (Action.get_run r)]
  split <;> rfl

def toStart (r : Replay) : Replay := { r with position := 0 }

def toEnd (r : Replay) : Replay := { r with position := r.length - 1 }

def current? (r : Replay) : Option Snapshot := r.recording.history.snapshots[r.position]?

/-- The index of the operation that runs next. -/
def nextOpIndex (r : Replay) : Nat :=
  match r.current? with
  | some ⟨_, some index⟩ => index + 1
  | _ => 0

/-- The failed operation of the recording, where the cursor has reached it. -/
def visibleFailure? (r : Replay) : Option (Nat × Fault) :=
  match r.recording.outcome with
  | .failed index fault => if r.isAtEnd then some (index, fault) else none
  | _ => none

def lineAt? (r : Replay) (index : Nat) : Option Nat :=
  (r.recording.trace.ops[index]?).map (·.line)

def forwardMany : Nat → Replay → Nat × Replay
  | 0, r => (0, r)
  | n + 1, r =>
      match forward r with
      | .ok _ next => let (taken, last) := forwardMany n next; (taken + 1, last)
      | .error _ stay => (0, stay)

end Replay
end StackMachine
