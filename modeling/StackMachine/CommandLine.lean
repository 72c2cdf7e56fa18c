import StackMachine.Replay

/-! The command line: one path and four settings, each at most once and before or behind the path.
A setting takes a count, as the next word or after an equals sign; two dashes end the settings. What
a run prints and its exit code depend on the words and on what reading the path gives. -/
namespace StackMachine.CommandLine

inductive ReadError where
  | missing
  | directory
  | notText
  | other (message : String)
  deriving DecidableEq, Repr, Inhabited

def ReadError.message : ReadError → String
  | .missing => "No such file or directory (os error 2)"
  | .directory => "Is a directory (os error 21)"
  | .notText => "stream did not contain valid UTF-8"
  | .other message => message

inductive Setting where
  | stackSize
  | heapSize
  | hooks
  | snapshotLimit
  deriving DecidableEq, Repr, Inhabited

def Setting.ofName? : String → Option Setting
  | "--stack-size" => some .stackSize
  | "--heap-size" => some .heapSize
  | "--hooks" => some .hooks
  | "--snapshot-limit" => some .snapshotLimit
  | _ => none

structure Words where
  path : Option String := none
  settings : List (Setting × Nat) := []
  deriving DecidableEq, Repr, Inhabited

namespace Words

def addPath (words : Words) (path : String) : Option Words :=
  if words.path.isSome || path.isEmpty then none else some { words with path := some path }

def addSetting (words : Words) (setting : Setting) (value : String) : Option Words :=
  if words.settings.any (·.1 == setting) then none
  else (Text.count? value).map fun n =>
    { words with settings := (setting, n.toNat) :: words.settings }

def setting (words : Words) (setting : Setting) (default : Nat) : Nat :=
  ((words.settings.find? (·.1 == setting)).map (·.2)).getD default

end Words

/-- A word with dashes in front, cut at its first equals sign. -/
def cut (word : List Char) : String × Option String :=
  let name := String.ofList (word.takeWhile (· ≠ '='))
  match word.dropWhile (· ≠ '=') with
  | [] => (name, none)
  | _ :: value => (name, some (String.ofList value))

/-- Read words; `none` is a mistake in their use. -/
def readWords (words : Words) : List String → Option Words
  | [] => some words
  | word :: rest =>
      match word.toList with
      | ['-', '-'] => rest.foldlM Words.addPath words
      | '-' :: '-' :: _ =>
          match cut word.toList, rest with
          | (name, some value), rest => do
              let setting ← Setting.ofName? name
              let words ← words.addSetting setting value
              readWords words rest
          | (name, none), value :: rest => do
              let setting ← Setting.ofName? name
              let words ← words.addSetting setting value
              readWords words rest
          | (_, none), [] => none
      | ['-'] => (words.addPath word).bind fun words => readWords words rest
      | '-' :: _ => none
      | _ => (words.addPath word).bind fun words => readWords words rest

structure Options where
  path : String
  config : Config
  snapshotLimit : Nat
  deriving DecidableEq, Repr, Inhabited

def readOptions (args : List String) : Option Options := do
  let words ← readWords {} args
  let path ← words.path
  let fresh : Config := {}
  return {
    path := path
    config := {
      stackCapacity := words.setting .stackSize fresh.stackCapacity
      heapSize := words.setting .heapSize fresh.heapSize
      hookCount := words.setting .hooks fresh.hookCount }
    snapshotLimit := words.setting .snapshotLimit History.defaultLimit }

structure Report where
  exitCode : Nat
  output : String := ""
  errors : String := ""
  deriving DecidableEq, Repr, Inhabited

def misuse : Nat := 2

def unusable : Nat := 64

def runSource (config : Config) (source : String) : Report :=
  match Trace.parse source with
  | .error e => { exitCode := unusable, errors := s!"Error: {e.message}\n" }
  | .ok trace =>
      match trace.run (.fresh config) with
      | .ok code => { exitCode := code }
      | .error fault => { exitCode := fault.exitCode, output := s!"panic: {fault.message}\n\n" }

def report (options : Options) : Except ReadError String → Report
  | .ok source => runSource options.config source
  | .error e =>
      { exitCode := unusable, errors := s!"Error: cannot read '{options.path}': {e.message}\n" }

def decode (bytes : ByteArray) : Except ReadError String :=
  match String.fromUTF8? bytes with
  | some text => .ok text
  | none => .error .notText

end StackMachine.CommandLine
