import StackMachine.CommandLine

/-! The program: reads the file that the command line names and runs the trace in it. -/
namespace StackMachine.CommandLine

def readPath (path : String) : IO (Except ReadError String) := do
  try
    return decode (← IO.FS.readBinFile path)
  catch e =>
    match e with
    | .noFileOrDirectory .. => return .error .missing
    | .inappropriateType .. => return .error .directory
    | e => return .error (.other (toString e))

def usage : String :=
  "usage: [--stack-size N] [--heap-size N] [--hooks N] [--snapshot-limit N] PATH"

def start (args : List String) : IO UInt32 := do
  match readOptions args with
  | none =>
      IO.eprintln usage
      return UInt32.ofNat misuse
  | some options =>
      let result := report options (← readPath options.path)
      IO.print result.output
      IO.eprint result.errors
      return UInt32.ofNat result.exitCode

end StackMachine.CommandLine

def main (args : List String) : IO UInt32 := StackMachine.CommandLine.start args
