import DecimalMachine.Text.Quoted
/-
  Options of a command line. Options and positional arguments may be mixed; `--` ends the
  options. A long option takes its value from behind an equals sign or from the next argument, a
  short one from the rest of its argument or from the next; short options without values may
  stand together. The last value of an option counts.
-/
namespace DecimalMachine.CommandLine

/-- What an option is for. -/
inductive OptionKey
  | output | listing | symbols | strict | runProgram | step | inputs | maxCycles | source
  | verbose | version | help
deriving DecidableEq

/-- An option with its names, long ones with two dashes and short ones with one. -/
structure OptionSpec where
  key : OptionKey
  names : List String
  takesValue : Bool

/-- An option as it was given. -/
structure GivenOption where
  key : OptionKey
  value : Option String

/-- What is wrong with a command line. A path is broken if it has a character that no path can
    have; nothing is said about it. -/
inductive UsageError
  | noSuchOption (name : String)
  | needsValue (name : String)
  | takesNoValue (name : String)
  | missingArgument (name : String)
  | invalid (argument problem : String)
  | unexpected (arguments : List String)
  | exclusive (first second : String)
  | brokenPath

namespace UsageError

def quoted (s : String) : String := String.ofList (Text.quote s.toList)

def message : UsageError → String
  | noSuchOption name => s!"No such option: {name}"
  | needsValue name => s!"Option {quoted name} requires an argument."
  | takesNoValue name => s!"Option {quoted name} does not take a value."
  | missingArgument name => s!"Missing argument '{name}'."
  | invalid argument problem => s!"Invalid value for {argument}: {problem}"
  | unexpected arguments =>
    let plural := if arguments.length = 1 then "" else "s"
    let listed := " ".intercalate arguments
    s!"Got unexpected extra argument{plural} ({listed})"
  | exclusive first second => s!"{first} and {second} are mutually exclusive"
  | brokenPath => ""

end UsageError

/-- The options in one argument, and the last of them, with its name, if its value is to come in
    the next argument. -/
structure Cluster where
  given : List GivenOption
  waiting : Option (OptionKey × String)

def findOption (specs : List OptionSpec) (name : String) : Option OptionSpec :=
  specs.find? fun s => s.names.contains name

/-- Reads a long option, with its value if there is an equals sign. -/
def readLong (specs : List OptionSpec) (arg : List Char) : Except UsageError Cluster :=
  let name := String.ofList (arg.takeWhile (· ≠ '='))
  let value := match arg.dropWhile (· ≠ '=') with
    | _ :: v => some (String.ofList v)
    | [] => none
  match findOption specs name with
  | none => .error (.noSuchOption name)
  | some s =>
    match s.takesValue, value with
    | true, some v => .ok ⟨[⟨s.key, some v⟩], none⟩
    | true, none => .ok ⟨[], some (s.key, name)⟩
    | false, some _ => .error (.takesNoValue name)
    | false, none => .ok ⟨[⟨s.key, none⟩], none⟩

/-- Reads short options that stand together behind one dash. -/
def readShort (specs : List OptionSpec) : List Char → Except UsageError Cluster
  | [] => .ok ⟨[], none⟩
  | c :: r =>
    let name := String.ofList ['-', c]
    match findOption specs name with
    | none => .error (.noSuchOption name)
    | some s =>
      if !s.takesValue then
        (readShort specs r).map fun k => { k with given := ⟨s.key, none⟩ :: k.given }
      else if r.isEmpty then .ok ⟨[], some (s.key, name)⟩
      else .ok ⟨[⟨s.key, some (String.ofList r)⟩], none⟩

def readOption (specs : List OptionSpec) : List Char → Except UsageError Cluster
  | '-' :: '-' :: r => readLong specs ('-' :: '-' :: r)
  | arg => readShort specs (arg.drop 1)

/-- A command line taken apart. -/
structure Arguments where
  given : List GivenOption
  positional : List String

def Arguments.give (a : Arguments) (gs : List GivenOption) : Arguments :=
  { a with given := gs ++ a.given }

/-- Whether an argument is an option: a dash with something behind it. -/
def isOption : List Char → Bool
  | '-' :: _ :: _ => true
  | _ => false

def readArguments (specs : List OptionSpec) : List String → Except UsageError Arguments
  | [] => .ok ⟨[], []⟩
  | arg :: rest =>
    if arg = "--" then .ok ⟨[], rest⟩
    else if isOption arg.toList then
      match readOption specs arg.toList with
      | .error e => .error e
      | .ok ⟨given, none⟩ => (readArguments specs rest).map (·.give given)
      | .ok ⟨given, some (key, name)⟩ =>
        match rest with
        | [] => .error (.needsValue name)
        | v :: rest => (readArguments specs rest).map (·.give (given ++ [⟨key, some v⟩]))
    else (readArguments specs rest).map fun a => { a with positional := arg :: a.positional }

namespace Arguments

def has (a : Arguments) (k : OptionKey) : Bool := a.given.any (·.key = k)

/-- Every value of an option, in order. -/
def values (a : Arguments) (k : OptionKey) : List String :=
  a.given.filterMap fun g => if g.key = k then g.value else none

/-- The value of an option that counts. -/
def value? (a : Arguments) (k : OptionKey) : Option String := (a.values k).getLast?

/-- The options that were given, each where it was given first. -/
def keys (a : Arguments) : List OptionKey :=
  a.given.foldl (fun ks g => if ks.contains g.key then ks else ks ++ [g.key]) []

end Arguments

end DecimalMachine.CommandLine
