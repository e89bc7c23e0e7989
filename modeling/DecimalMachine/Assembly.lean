import DecimalMachine.Note
import DecimalMachine.Program
import DecimalMachine.Text.Similarity
/-
  Assembly: from the lines of a source to a program. A first pass gives every variable a data
  address and every label the address of the instruction behind it; a second pass encodes the
  instructions. Each pass leaves findings line by line, and the findings together decide whether
  there is a program.
-/
namespace DecimalMachine

/-- Why there is no program. -/
inductive AssemblyError
  | diagnostic (d : Diagnostic)
  | number (e : DigitLimit)

/-- What came up at a line. -/
inductive Finding
  | remark (text : String)
  | warning (text : String)
  | error (d : Diagnostic)
  | number (e : DigitLimit)

namespace Line

/-- A complaint about this line. -/
def complain (l : Line) (c : Complaint) : Finding :=
  .error ⟨c, some l.location, some (shown l.raw)⟩

/-- A warning about this line. -/
def warn (l : Line) (text : String) : Finding :=
  .warning (Diagnostic.located (some l.location) text)

end Line

namespace Assembly

/-! ## First pass: variables and labels -/

/-- A variable is declared by the first line that names it with a value that fits. -/
def declare (symbols : List Symbol) (l : Line) : List Symbol × List Finding :=
  match l.statement with
  | .variable name value =>
    if symbols.any (·.name == name) then
      (symbols, [.remark s!"{l.location.render}: variable '{name}' already declared, ignored"])
    else if !Word.inRange value then (symbols, [l.complain (.initialValue name value)])
    else (symbols ++ [⟨name, symbols.length, value, l.location⟩], [])
  | _ => (symbols, [])

def declareAll : List Symbol → List Line → List Symbol × List Finding
  | symbols, [] => (symbols, [])
  | symbols, l :: ls =>
    let (symbols, found) := declare symbols l
    let (symbols, more) := declareAll symbols ls
    (symbols, found ++ more)

/-- The labels once `new` is among them; it takes the place of an older one of its name. -/
def putLabel (new : Label) : List Label → List Label
  | [] => [new]
  | l :: ls => if l.name = new.name then new :: ls else l :: putLabel new ls

/-- Binds the label that a line defines to the address of the next instruction. -/
def bind (labels : List Label) (address : Nat) (l : Line) : List Label × List Finding :=
  match l.statement with
  | .label name =>
    let found :=
      match labels.find? (·.name == name) with
      | some old =>
        let was := Program.address2 old.address
        let now := Program.address2 address
        [l.warn s!"label '{name}' redefined (was {was}, now {now})"]
      | none => []
    (putLabel ⟨name, address, l.location⟩ labels, found)
  | _ => (labels, [])

def bindAll : List Label → Nat → List Line → List Label × List Finding
  | labels, _, [] => (labels, [])
  | labels, address, l :: ls =>
    let (labels, found) := bind labels address l
    let (labels, more) := bindAll labels (if l.isCode then address + 1 else address) ls
    (labels, found ++ more)

/-- What the first pass finds out. -/
structure Tables where
  symbols : List Symbol
  labels : List Label

def Tables.origin (t : Tables) : Nat := t.symbols.length

/-- The tables of some lines, and what came up on the way. -/
def tabulate (lines : List Line) : Tables × List Finding :=
  let (symbols, found) := declareAll [] lines
  let (labels, more) := bindAll [] symbols.length lines
  let summary := s!"Pass 1: {symbols.length} variables, {labels.length} labels, " ++
    s!"instruction origin {symbols.length}"
  (⟨symbols, labels⟩, found ++ more ++ [.remark summary])

/-! ## Second pass: instructions -/

/-- The number that an operand stands for: a literal, a label, a variable, or zero when there is
    nothing of its name. -/
def resolve (t : Tables) (operand : String) : Except DigitLimit (Nat × Resolution) :=
  if Text.isDigits operand.toList then
    (Text.natOfDigits operand.toList).map fun n => (n, .literal)
  else
    match t.labels.find? (·.name == operand), t.symbols.find? (·.name == operand) with
    | some l, _ => .ok (l.address, .label)
    | none, some s => .ok (s.address, .variable)
    | none, none => .ok (0, .undefined)

/-- The names that an undefined operand may have been meant for. -/
def Tables.names (t : Tables) : List String := t.labels.map Label.name ++ t.symbols.map Symbol.name

/-- The instruction of a line, if it has one, and what came up. -/
structure Encoding where
  findings : List Finding
  instruction : Option Instruction

def Encoding.refused (findings : List Finding) (f : Finding) : Encoding :=
  ⟨findings ++ [f], none⟩

/-- Encodes an operation with its operand. -/
def encodeOperand (t : Tables) (strict : Bool) (l : Line) (address : Nat) (op : Opcode)
    (operand : String) (found : List Finding) : Encoding :=
  match resolve t operand with
  | .error e => .refused found (.number e)
  | .ok (n, resolution) =>
    if resolution = .undefined && strict then
      .refused found (l.complain (.undefinedSymbol operand (Text.closeNames 3 operand t.names)))
    else
      let found :=
        if resolution = .undefined then
          found ++ [l.warn s!"undefined symbol '{operand}', using operand 0"]
        else found
      let word := Word.join op.code n
      if !Word.inRange word then
        match Text.writeNumeral word with
        | .error e => .refused found (.number e)
        | .ok _ => .refused found (l.complain (.wideWord op.mnemonic n word))
      else
        let found :=
          if Word.greatestOperand < n then
            found ++ [l.warn s!"operand {n} does not fit in two digits; word overflows"]
          else found
        ⟨found, some ⟨address, word, op, n, l, some resolution⟩⟩

/-- Encodes the instruction line `l` for an address. -/
def encode (t : Tables) (strict : Bool) (l : Line) (address : Nat) : Encoding :=
  match l.statement with
  | .instruction mnemonic operand extra =>
    match Opcode.ofMnemonic? mnemonic with
    | none =>
      let upper := String.ofList (Text.upper mnemonic.toList)
      let similar := Text.closeNames 3 upper Opcode.allMnemonics
      .refused [] (l.complain (.unknownInstruction mnemonic similar))
    | some op =>
      let ignored := " ".intercalate extra
      let found :=
        if extra.isEmpty then [] else [l.warn s!"extra tokens after operand ignored: {ignored}"]
      if !op.takesOperand then ⟨found, some ⟨address, Word.join op.code 0, op, 0, l, none⟩⟩
      else
        match operand with
        | none => .refused found (l.complain (.missingOperand op.mnemonic))
        | some operand => encodeOperand t strict l address op operand found
  | _ => ⟨[], none⟩

/-- Encodes the instruction lines, the first of them for the origin. -/
def encodeAll (t : Tables) (strict : Bool) (lines : List Line) : List Encoding :=
  ((lines.filter Line.isCode).zipIdx t.origin).map fun (l, address) => encode t strict l address

/-! ## Verdict -/

/-- Diagnostics are collected up to this many. -/
def errorLimit : Int := 100

/-- The findings up to the one that stops the assembly. -/
structure Review where
  collector : Collector Diagnostic
  notes : Array Note
  stopped : Option AssemblyError

namespace Review

def start : Review := ⟨.empty errorLimit, #[], none⟩

def note (r : Review) (n : Note) : Review := { r with notes := r.notes.push n }

def enter (r : Review) (f : Finding) : Review :=
  if r.stopped.isSome then r
  else
    match f with
    | .remark text => r.note (.debug text)
    | .warning text => { r.note (.warning text) with collector := r.collector.warn text }
    | .number e => { r with stopped := some (.number e) }
    | .error d =>
      let c := r.collector.add d
      ⟨c, r.notes, if c.isFull then some (.diagnostic c.overflow) else none⟩

def ofFindings (fs : List Finding) : Review := fs.foldl enter start

/-- The error that the findings amount to. -/
def error? (r : Review) : Option AssemblyError :=
  match r.stopped with
  | some e => some e
  | none => if r.collector.hasErrors then some (.diagnostic r.collector.failure) else none

end Review

end Assembly

/-- The outcome of an assembly, with its notes and warnings. -/
structure Assembly where
  notes : Array Note
  warnings : List String
  outcome : Except AssemblyError Program

namespace Assembly

/-- Assembles lines. There is a program only if nothing is wrong with any of them. -/
def ofLines (strict : Bool) (filename : String) (lines : List Line) : Assembly :=
  let (tables, found) := tabulate lines
  let encodings := encodeAll tables strict lines
  let review := Review.ofFindings (found ++ encodings.flatMap Encoding.findings)
  let warnings := review.collector.warnings.toList
  match review.error? with
  | some e => ⟨review.notes, warnings, .error e⟩
  | none =>
    let instructions := encodings.filterMap Encoding.instruction
    let summary := s!"Pass 2: encoded {instructions.length} instructions"
    ⟨(review.note (.debug summary)).notes, warnings,
      .ok ⟨tables.symbols, tables.labels, instructions, warnings, filename⟩⟩

/-- The lines that were read. -/
def accepted : List (Except LineError Line) → List Line
  | [] => []
  | .ok l :: r => l :: accepted r
  | .error _ :: r => accepted r

/-- The errors of the lines that were not read. -/
def refusals : List (Except LineError Line) → List Finding
  | [] => []
  | .ok _ :: r => refusals r
  | .error (.diagnostic d) :: r => .error d :: refusals r
  | .error (.number e) :: r => .number e :: refusals r

/-- The lines of a source text, if all can be read. -/
def readSource (filename source : String) : Except AssemblyError (List Line) :=
  let results := Source.readLines filename source
  match (Review.ofFindings (refusals results)).error? with
  | some e => .error e
  | none => .ok (accepted results)

end Assembly

/-! ## Assembling again and again -/

/-- An assembler between two assemblies: the last program, and the warnings of the last source
    whose lines could all be read. -/
structure Assembler where
  strict : Bool
  program : Option Program
  warnings : List String

namespace Assembler

def new (strict : Bool) : Assembler := ⟨strict, none, []⟩

/-- Assembles a source text. A text with a line that cannot be read changes nothing; one that
    cannot be encoded leaves no program. -/
def assemble (a : Assembler) (filename source : String) : Assembler × Assembly :=
  match Assembly.readSource filename source with
  | .error e => (a, ⟨#[], [], .error e⟩)
  | .ok lines =>
    let r := Assembly.ofLines a.strict filename lines
    (⟨a.strict, r.outcome.toOption, r.warnings⟩, r)

/-- The last program. -/
def current (a : Assembler) : Except Diagnostic Program :=
  match a.program with
  | some p => .ok p
  | none => .error (.ofComplaint .noProgram)

end Assembler

end DecimalMachine
