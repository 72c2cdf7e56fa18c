import StackMachine.Op.Text
import StackMachine.Text.Blank

/-! Traces: straight lists of operations, written one to a line. A number sign starts a comment, and
a line without words holds no operation. A run ends at the first `halt`, at the first fault, or
after the last operation. -/
namespace StackMachine

structure TraceError where
  line : Nat
  cause : OpError
  deriving DecidableEq, Repr, Inhabited

def TraceError.message (e : TraceError) : String :=
  s!"trace error at line {e.line}: {e.cause.message}"

/-- An operation and the line that it stands on, counted from one. -/
structure TracedOp where
  op : Op
  line : Nat
  deriving DecidableEq, Repr, Inhabited

structure Trace where
  ops : List TracedOp
  deriving DecidableEq, Repr, Inhabited

namespace Trace

def success : Nat := 0

def code (line : List Char) : List Char := line.takeWhile (· ≠ '#')

def comment (line : List Char) : List Char := line.dropWhile (· ≠ '#')

def readLine (line : List Char) : Except OpError (Option Op) :=
  match (Text.words (code line)).map String.ofList with
  | [] => .ok none
  | mnemonic :: operands =>
      match Op.ofWords mnemonic operands with
      | .ok op => .ok (some op)
      | .error e => .error e

def readLines (number : Nat) : List (List Char) → Except TraceError (List TracedOp)
  | [] => .ok []
  | line :: rest =>
      match readLine line with
      | .error e => .error ⟨number, e⟩
      | .ok none => readLines (number + 1) rest
      | .ok (some op) =>
          match readLines (number + 1) rest with
          | .error e => .error e
          | .ok ops => .ok (⟨op, number⟩ :: ops)

def parse (source : String) : Except TraceError Trace :=
  match readLines 1 (Text.lines source.toList) with
  | .ok ops => .ok ⟨ops⟩
  | .error e => .error e

def ofOps (ops : List Op) : Trace := ⟨(ops.zipIdx 1).map fun entry => ⟨entry.1, entry.2⟩⟩

def text (ops : List Op) : String := "\n".intercalate (ops.map Op.text)

def agrees (a b : Trace) : Bool :=
  a.ops.length == b.ops.length &&
    (a.ops.zip b.ops).all fun pair => pair.1.op.agrees pair.2.op && pair.1.line == pair.2.line

def roundTrips (t : Trace) : Bool :=
  let ops := t.ops.map (·.op)
  match parse (text ops) with
  | .ok again => again.agrees (ofOps ops)
  | .error _ => false

def runOps (m : Machine) : List TracedOp → Except Fault Nat
  | [] => .ok success
  | traced :: rest =>
      match traced.op.apply m with
      | .error fault _ => .error fault
      | .ok .halt _ => .ok success
      | .ok .next next => runOps next rest

def run (t : Trace) (m : Machine) : Except Fault Nat := runOps m t.ops

end Trace
end StackMachine
