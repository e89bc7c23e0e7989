import DecimalMachine.Capacity
import DecimalMachine.Text.Layout
/-
  Diagnostics: what is wrong with a source text and where, and a collector that gathers errors
  and warnings for one report.
-/
namespace DecimalMachine

/-- A place in a source text; lines and columns count from one. -/
structure Location where
  file : String
  line : Int
  column : Int
deriving DecidableEq

def Location.render (l : Location) : String := s!"{l.file}:{l.line}:{l.column}"

/-- What can be wrong with a source text. -/
inductive Complaint
  | namelessLabel
  | initialValue (name : String) (value : Int)
  | missingOperand (mnemonic : String)
  | wideWord (mnemonic : String) (operand word : Int)
  | malformed (message : String) (hint : Option String)
  | unknownInstruction (mnemonic : String) (similar : List String)
  | undefinedSymbol (symbol : String) (similar : List String)
  | noProgram
  | failed (count : Nat) (report : String)
  | tooMany (message : String)
  | other (message : String) (hint : Option String)
deriving DecidableEq

namespace Complaint

def message : Complaint → String
  | namelessLabel => "label definition without a name"
  | initialValue name value => s!"initial value {value} of '{name}' is outside -9999..9999"
  | missingOperand mnemonic => s!"'{mnemonic}' requires an operand"
  | wideWord _ operand word => s!"operand {operand} makes word {word} wider than four digits"
  | malformed message _ => message
  | unknownInstruction mnemonic _ => s!"unknown instruction '{mnemonic}'"
  | undefinedSymbol symbol _ => s!"undefined symbol '{symbol}'"
  | noProgram => "no program has been assembled"
  | failed count report => s!"Assembly failed with {count} errors:\n\n{report}"
  | tooMany message => message
  | other message _ => message

/-- A question that offers the first three of the similar names. -/
def suggestion (similar : List String) : Option String :=
  if similar.isEmpty then none
  else
    let names := ", ".intercalate ((similar.take 3).map fun s => s!"'{s}'")
    some s!"did you mean {names}?"

def hint : Complaint → Option String
  | wideWord mnemonic _ _ => some s!"'{mnemonic}' takes an operand of 0-99"
  | malformed _ hint => hint
  | unknownInstruction _ similar => suggestion similar
  | undefinedSymbol _ similar => suggestion similar
  | other _ hint => hint
  | _ => none

end Complaint

/-- A complaint, the place it is about and the source line there. -/
structure Diagnostic where
  complaint : Complaint
  location : Option Location
  sourceLine : Option String
deriving DecidableEq

namespace Diagnostic

/-- A diagnostic about no place in particular. -/
def ofComplaint (c : Complaint) : Diagnostic := ⟨c, none, none⟩

def headline (d : Diagnostic) : String :=
  match d.location with
  | some l => s!"{l.render}: error: {d.complaint.message}"
  | none => s!"error: {d.complaint.message}"

/-- How many blanks stand before the mark at a column. -/
def indent (l : Location) : Nat := (4 + l.column - 1).toNat

/-- The source line, set in by four blanks, and below it a mark at the column. -/
def excerpt (d : Diagnostic) : List String :=
  match d.location, d.sourceLine with
  | some l, some line =>
    s!"    {line}" ::
      if 0 < l.column then [String.ofList (Text.blanks (indent l) ++ ['^'])] else []
  | _, _ => []

/-- Checks that there is room for the blanks before the mark. -/
def checkExcerpt (d : Diagnostic) : Except CapacityFault Unit :=
  match d.location, d.sourceLine with
  | some l, some _ => if 0 < l.column then Capacity.check (indent l) else .ok ()
  | _, _ => .ok ()

def hintLine (d : Diagnostic) : List String :=
  match d.complaint.hint with
  | some h => if h.isEmpty then [] else [s!"hint: {h}"]
  | none => []

def lines (d : Diagnostic) : List String := d.headline :: (d.excerpt ++ d.hintLine)

def render (d : Diagnostic) : String := "\n".intercalate d.lines

/-- The text of a warning. It names the place that the warning is about. -/
def located (location : Option Location) (text : String) : String :=
  match location with
  | some l => s!"{l.render}: warning: {text}"
  | none => text

end Diagnostic

instance : ToString Diagnostic := ⟨Diagnostic.render⟩

/-- Errors and warnings in the order they came, and how many errors are enough to give up. -/
structure Collector (ε : Type) where
  limit : Int
  errors : Array ε
  warnings : Array String

namespace Collector

variable {ε : Type}

def empty (limit : Int) : Collector ε := ⟨limit, #[], #[]⟩

def add (c : Collector ε) (e : ε) : Collector ε := { c with errors := c.errors.push e }

def warn (c : Collector ε) (text : String) : Collector ε :=
  { c with warnings := c.warnings.push text }

def isFull (c : Collector ε) : Bool := c.limit ≤ c.errors.size

def hasErrors (c : Collector ε) : Bool := 0 < c.errors.size

/-- So many things, in the plural unless there is one. -/
def counted (n : Nat) (thing : String) : String :=
  if n = 1 then s!"{n} {thing}" else s!"{n} {thing}s"

def report [ToString ε] (c : Collector ε) : String :=
  let errors := c.errors.toList.flatMap fun e => [toString e, ""]
  let warnings :=
    if c.warnings.isEmpty then [] else "Warnings:" :: c.warnings.toList.map fun w => s!"  {w}"
  let errorCount := counted c.errors.size "error"
  let warningCount := counted c.warnings.size "warning"
  "\n".intercalate (errors ++ warnings ++ [s!"\n{errorCount}, {warningCount}"])

/-- The diagnostic that a full collector amounts to. -/
def overflow [ToString ε] (c : Collector ε) : Diagnostic :=
  .ofComplaint (.tooMany s!"Too many errors ({c.limit}), stopping\n\n{c.report}")

/-- The diagnostic that the errors of a collector amount to when nothing more will come. -/
def failure [ToString ε] (c : Collector ε) : Diagnostic :=
  .ofComplaint (.failed c.errors.size c.report)

end Collector

end DecimalMachine
