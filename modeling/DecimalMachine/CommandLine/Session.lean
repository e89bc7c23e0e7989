import DecimalMachine.Assembly
import DecimalMachine.CommandLine.Console
import DecimalMachine.CommandLine.Files
import DecimalMachine.CommandLine.Options
import DecimalMachine.Execution
import DecimalMachine.Text.Escape
import DecimalMachine.Text.Utf8
/-
  Sessions: a command at work on its files, with what it has written to its two streams, and the
  ways in which it gives up.
-/
namespace DecimalMachine.CommandLine

/-- Why a command gives up: something that is wrong with a source, a fault of the machine, an
    image or address that is refused, a file that is missing, a number or text that cannot be
    read, or a command line that makes no sense. -/
inductive Failure
  | assembly (message : String)
  | runtime (message : String)
  | refused (message : String)
  | missing (message : String)
  | internal (message : String)
  | usage (e : UsageError)

inductive ExitCode
  | success
  | buildError
  | invalidArguments
  | internalError

def ExitCode.code : ExitCode → Nat
  | .success => 0
  | .buildError => 1
  | .invalidArguments => 2
  | .internalError => 3

namespace Failure

def exitCode : Failure → ExitCode
  | assembly _ | runtime _ | refused _ => .buildError
  | missing _ | usage _ => .invalidArguments
  | internal _ => .internalError

/-- The line that tells of a failure; `task` is what the command was about. -/
def message (task : String) : Failure → String
  | assembly m => m
  | runtime m => s!"Runtime error: {m}. Terminating program..."
  | refused m => if task.isEmpty then s!"Error: {m}" else s!"{task} error: {m}"
  | missing m => s!"Error: {m}"
  | internal m => s!"Internal error: {m}"
  | usage e => s!"Error: {e.message}"

def ofPath (f : PathFault) (path : String) : Failure :=
  match f with
  | .missing => .missing (f.message path)
  | _ => .internal (f.message path)

def ofAssembly : AssemblyError → Failure
  | .diagnostic d => .assembly d.render
  | .number e => .internal e.message

def ofImage : ImageError → Failure
  | .number e => .internal e.message
  | e => .refused e.message

def ofMachine : MachineError → Failure
  | .fault r => .runtime r.message
  | .number e => .internal e.message
  | e => .refused e.message

/-- The message for bytes that are no text. -/
def encodingMessage (e : Text.Utf8Error) : String :=
  let byte := String.ofList (Text.hex 2 e.byte.toNat)
  let place :=
    if e.start + 1 = e.stop then s!"byte 0x{byte} in position {e.start}"
    else s!"bytes in position {e.start}-{e.stop - 1}"
  s!"'utf-8' codec can't decode {place}: {e.fault.message}"

end Failure

/-- What a command would have gone on with: another line typed at the console, or leave to run
    for longer. -/
inductive Want
  | line
  | patience
deriving DecidableEq

/-- A line as it is shown: without escape sequences, and ended. -/
def shownLine (text : String) : String := Text.stripEscapes text ++ "\n"

/-- The streams only grow. With `verbose` every note is logged, with its level; else warnings
    are, as they are. -/
structure Session where
  files : FileTable
  out : String
  err : String
  verbose : Bool
  console : Option Console
  want : Option Want

/-- Work of a command: it may give up, and what it has done stays. -/
abbrev Work := EStateM Failure Session

namespace Session

/-- A session in which nothing has happened. -/
def new (files : FileTable) (verbose : Bool) : Session := ⟨files, "", "", verbose, none, none⟩

/-- A line for the first stream; escape sequences are left out. -/
def say (s : Session) (text : String) : Session := { s with out := s.out ++ shownLine text }

/-- A line for the second stream; escape sequences are left out. -/
def sayErr (s : Session) (text : String) : Session := { s with err := s.err ++ shownLine text }

/-- A line for the first stream as it is. -/
def report (s : Session) (text : String) : Session := { s with out := s.out ++ text ++ "\n" }

def log (s : Session) (n : Note) : Session :=
  if s.verbose then { s with err := s.err ++ n.render ++ "\n" }
  else if n.level = .warning then { s with err := s.err ++ n.text ++ "\n" }
  else s

/-- The prompt. Escape sequences in it are left out, but its last character stays. -/
def promptText (prompt : String) : String :=
  let cs := prompt.toList
  Text.stripEscapes (String.ofList cs.dropLast) ++ String.ofList (cs.drop (cs.length - 1))

/-- The prompt, as often as it was answered with an empty line and once more. -/
def promptTexts (prompt : String) (empties : Nat) : String :=
  String.join (List.replicate empties (promptText prompt ++ "\n")) ++ promptText prompt

/-- What the console shows when the program asks for a token. -/
def ask (s : Session) (answered : Bool) : Session :=
  match s.console with
  | none => s
  | some c =>
    match answered, c.replies with
    | true, r :: rest =>
      { s with
        out := s.out ++ promptTexts c.prompt r.empties ++ r.line ++ "\n",
        console := some { c with replies := rest } }
    | _, _ =>
      let s := { s with
        out := s.out ++ promptTexts c.prompt c.trailing,
        console := some { c with trailing := 0 },
        want := some .line }
      s.log (.debug "Console input closed")

def display (s : Session) : Display → Session
  | .line text => s.say text
  | .entry (.wrote line) => s.say line
  | .entry (.asked token) => s.ask token.isSome
  | .entry (.note n) => s.log n

end Session

namespace Work

def say (text : String) : Work Unit := modify (·.say text)

def sayErr (text : String) : Work Unit := modify (·.sayErr text)

/-- Tells of progress, if the command is to do so. -/
def report (text : String) : Work Unit :=
  modify fun s => if s.verbose then s.report text else s

def log (notes : List Note) : Work Unit := modify fun s => notes.foldl Session.log s

/-- Goes on with a value, or gives up. -/
def orFail (f : ε → Failure) : Except ε α → Work α
  | .ok a => pure a
  | .error e => throw (f e)

/-- Reads a file as text. -/
def readText (path : String) : Work String := do
  let s ← get
  let bytes ← orFail (Failure.ofPath · path) (s.files.read path)
  let chars ← orFail (fun e => .internal (Failure.encodingMessage e)) (Text.decodeUtf8 bytes)
  pure (String.ofList (Text.normalizeBreaks chars))

def writeText (path text : String) : Work Unit := do
  let s ← get
  let files ← orFail (Failure.ofPath · path) (s.files.write path text)
  set { s with files }

end Work

end DecimalMachine.CommandLine
