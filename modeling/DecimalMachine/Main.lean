import DecimalMachine.CommandLine.Tools
/-
  The program: the first argument names the tool, the others are its arguments. A tool is a
  function of what it can see, so the program shows it the files that its arguments may name,
  writes what it has written, and runs it again from the beginning whenever it wants another line
  from the console or more time; what it shows then goes on from what it has shown.
-/
namespace DecimalMachine.CommandLine

/-- What stands at an absolute route. A directory can be opened but not read. -/
def nodeAt (r : Route) : IO (Option Node) := do
  try
    let bytes ← IO.FS.readBinFile ("/" ++ "/".intercalate r)
    pure (some (.file bytes.toList))
  catch
    | .inappropriateType .. => pure (some .directory)
    | _ => pure none

/-- Puts what stands on the way of a path into the table. -/
def survey (t : FileTable) (path : String) : IO FileTable := do
  let mut t := t
  let mut place := t.start path
  for part in pathParts path do
    if part.isEmpty || part = "." then continue
    if part = ".." then
      place := place.dropLast
      continue
    place := place ++ [part]
    if (t.node? place).isSome then continue
    match ← nodeAt place with
    | some n => t := t.put place n
    | none => break
  pure t

/-- The paths that an argument may name: itself, or the value of an option in it, or a file with
    another extension. -/
def mentioned (arg : String) : List String :=
  let cs := arg.toList
  let values := [cs, (cs.dropWhile (· ≠ '=')).drop 1, cs.drop 2].map String.ofList
  values.flatMap fun v => [v, withExtension v ".mach"]

/-- The files that a command line may name. -/
def surveyAll (args : List String) : IO FileTable := do
  let here := pathNames (← IO.currentDir).toString
  let dirs := (List.range (here.length + 1)).map fun k => (here.take k, Node.directory)
  (args.flatMap mentioned).foldlM survey ⟨here, dirs, []⟩

/-- The names in the environment that settings are read from. -/
def settingNames : List String :=
  ["SML_MEMORY_SIZE", "SML_MAX_CYCLES", "SML_STRICT_SYMBOLS", "SML_PROMPT"]

def readEnvironment : IO Environment :=
  settingNames.filterMapM fun name => do pure ((← IO.getEnv name).map (name, ·))

def writeFiles (writes : List (Route × String)) : IO Unit :=
  writes.forM fun (r, text) => IO.FS.writeFile ("/" ++ "/".intercalate r) text

/-- The text after its first `n` characters. -/
def textFrom (n : Nat) (s : String) : String := String.ofList (s.toList.drop n)

/-- Runs a tool until it wants nothing more. The first `shown` characters of what it writes have
    been shown; `closed` tells that no further line will be typed. -/
partial def converse (run : String → Nat → Report) (typed : String) (closed : Bool)
    (patience shown : Nat) : IO UInt32 := do
  let report := run typed patience
  let s := report.session
  let out ← IO.getStdout
  writeFiles s.files.writes
  out.putStr (textFrom shown s.out)
  out.flush
  let finish : IO UInt32 := do
    IO.eprint s.err
    pure (UInt32.ofNat report.exitCode.code)
  match s.want with
  | none => finish
  | some .patience => converse run typed closed (2 * patience) s.out.length
  | some .line =>
    if closed then finish
    else
      let line ← (← IO.getStdin).getLine
      if line.isEmpty then converse run typed true patience s.out.length
      else converse run (typed ++ line) false patience (s.out.length + line.length)

end DecimalMachine.CommandLine

open DecimalMachine DecimalMachine.CommandLine in
def main (args : List String) : IO UInt32 := do
  match args with
  | [] => IO.eprintln "usage: smlasm|smlrun|smldisasm ARGUMENTS"; pure 2
  | name :: args =>
    match Tool.all.find? fun t => t.name == name with
    | none => IO.eprintln s!"no such tool: {name}"; pure 2
    | some tool =>
      let files ← surveyAll args
      let settings := Settings.ofEnvironment (← readEnvironment)
      converse (fun typed patience => tool.run files ⟨settings, typed, patience⟩ args) "" false
        100000 0
