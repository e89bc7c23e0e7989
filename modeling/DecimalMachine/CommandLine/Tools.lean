import DecimalMachine.CommandLine.Session
import DecimalMachine.Disassembly
import DecimalMachine.Settings
/-
  The three tools: an assembler, a runner and a disassembler, each from its arguments to an exit
  code, two streams and the files it wrote.
-/
namespace DecimalMachine.CommandLine

inductive Tool
  | assembler
  | runner
  | disassembler
deriving DecidableEq

def toolVersion : String := "1.0.0"

namespace Tool

def name : Tool → String
  | assembler => "smlasm"
  | runner => "smlrun"
  | disassembler => "smldisasm"

def all : List Tool := [.assembler, .runner, .disassembler]

/-- What a failure of the tool says it was about. -/
def task : Tool → String
  | assembler => "Assembly"
  | runner => "Load"
  | disassembler => "Disassembly"

def options : Tool → List OptionSpec
  | assembler =>
    [⟨.output, ["-o", "--output"], true⟩, ⟨.listing, ["-l", "--listing"], true⟩,
      ⟨.symbols, ["-s", "--symbols"], true⟩, ⟨.strict, ["--strict"], false⟩,
      ⟨.runProgram, ["-r", "--run"], false⟩, ⟨.step, ["-S", "--step"], false⟩,
      ⟨.maxCycles, ["--max-cycles"], true⟩] ++ common
  | runner =>
    [⟨.step, ["--step"], false⟩, ⟨.inputs, ["--input"], true⟩,
      ⟨.maxCycles, ["--max-cycles"], true⟩] ++ common
  | disassembler =>
    [⟨.output, ["-o", "--output"], true⟩, ⟨.source, ["--source"], false⟩] ++ common
where
  common : List OptionSpec :=
    [⟨.verbose, ["-v", "--verbose"], false⟩, ⟨.version, ["--version"], false⟩,
      ⟨.help, ["--help"], false⟩]

end Tool

/-! ## Checking the arguments -/

/-- What a tool is asked to do. -/
structure Request where
  arguments : Arguments
  input : String
  maxCycles : Option Int

namespace Request

def has (r : Request) (k : OptionKey) : Bool := r.arguments.has k

def path? (r : Request) (k : OptionKey) : Option String := (r.arguments.value? k).map plainPath

end Request

/-- How an option is named in a message. -/
def hintOf (specs : List OptionSpec) (k : OptionKey) : String :=
  match specs.find? (·.key = k) with
  | some s => " / ".intercalate (s.names.map fun n => s!"'{n}'")
  | none => ""

/-- A path to read must be one of a file. -/
def checkReadable (files : FileTable) (hint path : String) : Except UsageError Unit :=
  if isBroken path then .error .brokenPath
  else
    let shown := UsageError.quoted path
    match files.look? path with
    | some (.file _) => .ok ()
    | some .directory => .error (.invalid hint s!"File {shown} is a directory.")
    | none => .error (.invalid hint s!"File {shown} does not exist.")

/-- A path to write must not be one of a directory. -/
def checkWritable (files : FileTable) (hint path : String) : Except UsageError Unit :=
  if isBroken path then .error .brokenPath
  else
    match files.look? path with
    | some .directory =>
      let shown := UsageError.quoted path
      .error (.invalid hint s!"File {shown} is a directory.")
    | _ => .ok ()

/-- A limit must be a number, and at least one. -/
def checkLimit (hint text : String) : Except UsageError Unit :=
  match Text.readLooseNumeral text.toList with
  | some n =>
    if 1 ≤ n then .ok () else .error (.invalid hint s!"{n} is not in the range x>=1.")
  | none =>
    let shown := UsageError.quoted text
    .error (.invalid hint s!"{shown} is not a valid integer range.")

/-- Checks the value of an option. -/
def checkOption (files : FileTable) (specs : List OptionSpec) (a : Arguments)
    (k : OptionKey) : Except UsageError Unit :=
  match k, a.value? k with
  | .output, some v | .listing, some v | .symbols, some v =>
    checkWritable files (hintOf specs k) v
  | .maxCycles, some v => checkLimit (hintOf specs k) v
  | _, _ => .ok ()

/-- Checks the options in the order they were given, then the positional arguments. -/
def checkArguments (files : FileTable) (specs : List OptionSpec) (a : Arguments) :
    Except UsageError Request := do
  a.keys.forM (checkOption files specs a)
  match a.positional with
  | [] => .error (.missingArgument "INPUT_FILE")
  | input :: extra =>
    checkReadable files "'INPUT_FILE'" input
    if extra.isEmpty then
      let limit := (a.value? .maxCycles).bind fun s => Text.readLooseNumeral s.toList
      .ok ⟨a, plainPath input, limit⟩
    else .error (.unexpected extra)

/-! ## The work of the tools -/

/-- What surrounds a tool: settings of its environment, what is typed at the console, and how
    many instructions a run without a limit may take. -/
structure Surroundings where
  settings : Settings
  typed : String
  patience : Nat

/-- Executes an image and tells how it ended. Without tokens the program reads from the
    console. -/
def execute (w : Surroundings) (i : Image) (byStep : Bool) (tokens : Option (List String))
    (limit : Option Int) : Work Emulator := do
  let console := if tokens.isNone then some (Console.new w.settings.prompt w.typed) else none
  modify fun s => { s with console }
  let input := match tokens, console with
    | some ts, _ => ts
    | none, some c => c.tokens
    | none, none => []
  let memory ← Work.orFail (fun f => .internal f.message) (Memory.ofSize w.settings.memorySize)
  let (e, refusal) := (Emulator.new memory input (limit <|> w.settings.maxCycles)).load i
  if let some err := refusal then throw (Failure.ofImage err)
  let x := Execution.run byStep e w.patience
  modify fun s => x.displays.foldl Session.display s
  match x.outcome with
  | some (.failed err) => throw (Failure.ofMachine err)
  | some (.stopped event) =>
    if event.reason = .cycleLimit then
      Work.sayErr s!"Warning: {event.render}; program did not halt"
    else if (← get).verbose then Work.say s!"Stopped: {event.render}"
  | some .unfinished => modify fun s => { s with want := some .patience }
  | none => pure ()
  pure x.emulator

/-- Assembles the source text of a file. -/
def assembleFile (path : String) (strict : Bool) : Work Program := do
  let source ← Work.readText path
  Work.report s!"Assembling {path}..."
  let (_, r) := (Assembler.new strict).assemble path source
  Work.log r.notes.toList
  let p ← Work.orFail Failure.ofAssembly r.outcome
  Work.report
    s!"Allocated {p.symbols.length} variables, instructions start at {p.origin}"
  Work.report s!"Generated {p.instructions.length} instructions"
  pure p

/-- Assembles a source file, writes the image and what else is asked for, shows the tables and
    may execute the program. -/
def assembleWork (w : Surroundings) (r : Request) : Work Unit := do
  if r.has .runProgram && r.has .step then
    throw (.usage (.exclusive "-r/--run" "-S/--step"))
  let p ← assembleFile r.input (r.has .strict || w.settings.strictSymbols)
  let image := p.toImage
  let target := (r.path? .output).getD (withExtension r.input ".mach")
  Work.writeText target image.toText
  Work.report s!"Wrote {target}"
  if let some path := r.path? .listing then
    Work.writeText path p.listingFile
    Work.report s!"Wrote listing to {path}"
  if let some path := r.path? .symbols then
    Work.writeText path p.symbolFile
    Work.report s!"Wrote symbols to {path}"
  Work.say p.tables
  if (← get).verbose then
    Work.say <| s!"Assembly complete: {p.symbols.length} variables, " ++
      s!"{p.instructions.length} instructions at {p.origin}"
    unless p.warnings.isEmpty do Work.say s!"{p.warnings.length} warnings"
  if r.has .runProgram || r.has .step then
    Work.say ""
    discard <| execute w image (r.has .step) none r.maxCycles

/-- Reads the image in a file. -/
def readImage (path : String) (capacity : Option Int) : Work Image := do
  let parsed := Image.parse (← Work.readText path) capacity
  Work.log parsed.notes.toList
  Work.orFail Failure.ofImage parsed.result

/-- Executes an image file. -/
def runWork (w : Surroundings) (r : Request) : Work Unit := do
  let image ← readImage r.input (some w.settings.memorySize)
  let verbose := (← get).verbose
  if verbose then
    Work.say s!"Loaded {image.words.length} words from {r.input}, starting at {image.origin}"
  let tokens := r.arguments.values .inputs
  let e ← execute w image (r.has .step) (if tokens.isEmpty then none else some tokens) r.maxCycles
  let warnings := e.machine.warnings
  if verbose && 0 < warnings.size then Work.say s!"{warnings.size} runtime warnings"

/-- Shows an image file as a listing or as source. -/
def disassembleWork (r : Request) : Work Unit := do
  let image ← readImage r.input none
  let verbose := (← get).verbose
  if verbose then
    Work.sayErr s!"Input file: {r.input} ({image.words.length} words)"
    Work.sayErr s!"Instruction origin: {image.origin}"
  let fresh : Disassembler := ⟨.empty⟩
  let text ←
    if r.has .source then do
      let (_, notes, text) := fresh.source image
      Work.log notes
      Work.orFail (fun e => .internal e.message) text
    else do
      let listing ← Work.orFail (fun e => .internal e.message) (fresh.listing image).2
      let size := s!"// Size: {image.words.length} words"
      pure ("\n".intercalate [s!"// Disassembly of {fileName r.input}", size, "", listing] ++ "\n")
  match r.path? .output with
  | some path =>
    Work.writeText path text
    if verbose then Work.sayErr s!"Output written to: {path}"
  | none => modify fun s => { s with out := s.out ++ Text.stripEscapes text }

def Tool.work (t : Tool) (w : Surroundings) (r : Request) : Work Unit :=
  match t with
  | .assembler => assembleWork w r
  | .runner => runWork w r
  | .disassembler => disassembleWork r

/-! ## From arguments to an exit code -/

/-- What a tool leaves behind. -/
structure Report where
  exitCode : ExitCode
  session : Session

/-- The options that are answered before all others, the first one given first. -/
def answerFirst (t : Tool) (a : Arguments) : Option String :=
  match a.keys.find? fun k => k = .version || k = .help with
  | some .version => some s!"{t.name}, version {toolVersion}"
  | some _ => some s!"Usage: {t.name} [OPTIONS] INPUT_FILE"
  | none => none

/-- The task from the arguments: something to say at once, or a request. -/
def readRequest (t : Tool) (files : FileTable) (args : List String) :
    Except UsageError (String ⊕ Request) := do
  let a ← readArguments t.options args
  match answerFirst t a with
  | some text => .ok (.inl text)
  | none => (checkArguments files t.options a).map .inr

/-- Runs a tool. -/
def Tool.run (t : Tool) (files : FileTable) (w : Surroundings) (args : List String) : Report :=
  match readRequest t files args with
  | .error .brokenPath => ⟨.buildError, Session.new files false⟩
  | .error e =>
    let f := Failure.usage e
    ⟨f.exitCode, (Session.new files false).sayErr (f.message t.task)⟩
  | .ok (.inl text) => ⟨.success, (Session.new files false).say text⟩
  | .ok (.inr r) =>
    match (t.work w r).run (Session.new files (r.has .verbose)) with
    | .ok _ s => ⟨.success, s⟩
    | .error f s => ⟨f.exitCode, s.sayErr (f.message t.task)⟩

end DecimalMachine.CommandLine
