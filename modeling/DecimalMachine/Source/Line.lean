import DecimalMachine.Diagnostic
import DecimalMachine.Opcode
import DecimalMachine.Text.Lines
import DecimalMachine.Text.Numeral
/-
  Source lines. Every line of a source text is of one kind, and which one depends on that line
  alone: blank, comment, label (`name:`), variable (`name = n`, `name n` or `name`) or, when it
  is none of these, an instruction.
-/
namespace DecimalMachine

/-- What a line says. -/
inductive Statement
  | blank
  | comment
  | label (name : String)
  | variable (name : String) (value : Int)
  | instruction (mnemonic : String) (operand : Option String) (extra : List String)
deriving DecidableEq

/-- A line of source: `raw` as written, `text` without the blanks around it and, unless it is
    a comment, without the comment behind it. -/
structure Line where
  statement : Statement
  text : String
  location : Location
  raw : String
deriving DecidableEq

/-- The line takes an address. -/
def Line.isCode (l : Line) : Bool :=
  match l.statement with
  | .instruction .. => true
  | _ => false

/-- The line as written, less the blanks behind it. -/
def Line.shown (raw : String) : String := String.ofList (Text.trimRight raw.toList)

/-- Why a line cannot be read. -/
inductive LineError
  | diagnostic (d : Diagnostic)
  | number (e : DigitLimit)

namespace Source

/-! ## Names and declarations -/

def isNameStart (c : Char) : Bool := c.isAlpha || c == '_'

def isNameRest (c : Char) : Bool := c.isAlphanum || c == '_'

/-- A name: an ASCII letter or underscore, then letters, digits and underscores. -/
def isName : List Char → Bool
  | [] => false
  | c :: r => isNameStart c && r.all isNameRest

/-- The longest name at the front of a text, and the rest. -/
def splitName (s : List Char) : List Char × List Char :=
  (s.takeWhile isNameRest, s.dropWhile isNameRest)

/-- How a variable is declared. -/
inductive Declaration
  /-- A name, an equals sign and a numeral. -/
  | assigned (name numeral : List Char)
  /-- A name and a numeral, with blanks between them. -/
  | paired (name numeral : List Char)
  /-- A name alone. -/
  | bare (name : List Char)

/-- The form of a declaration, whatever its name. -/
def declaration? (s : List Char) : Option Declaration :=
  let (name, rest) := splitName s
  if !isName name then none
  else
    match Text.trimLeft rest with
    | [] => if rest.isEmpty then some (.bare name) else none
    | '=' :: value =>
      let value := Text.trimLeft value
      if Text.isNumeral value then some (.assigned name value) else none
    | value =>
      if value.length < rest.length && Text.isNumeral value then some (.paired name value)
      else none

/-- A declaration with a mnemonic as its name is an instruction, unless it has an equals sign. -/
def Declaration.isVariable : Declaration → Bool
  | .assigned .. => true
  | .paired name _ => !Opcode.isMnemonic (String.ofList name)
  | .bare name => !Opcode.isMnemonic (String.ofList name)

/-- The variable that a text declares. -/
def variableOf? (s : List Char) : Option Declaration :=
  (declaration? s).filter Declaration.isVariable

/-! ## Comments -/

/-- The text before the first `//`. -/
def beforeComment : List Char → List Char
  | '/' :: '/' :: _ => []
  | c :: r => c :: beforeComment r
  | [] => []

/-- The text without its comment and the blanks around it. -/
def stripComment (s : List Char) : List Char := Text.trim (beforeComment s)

/-! ## Reading a line -/

def statementOfDeclaration : Declaration → Except DigitLimit Statement
  | .assigned name value | .paired name value =>
    (Text.intOfNumeral value).map (.variable (String.ofList name))
  | .bare name => .ok (.variable (String.ofList name) 0)

def statementOfWords : List (List Char) → Statement
  | [] => .instruction "" none []
  | m :: r =>
    .instruction (String.ofList m) (r.head?.map String.ofList) (r.tail.map String.ofList)

/-- The statement of a line that has neither comment nor blanks around it and is not empty;
    `none` for a colon with no name before it. -/
def statement (s : List Char) : Except DigitLimit (Option Statement) :=
  if s.getLast? = some ':' then
    let name := Text.trim s.dropLast
    .ok (if name.isEmpty then none else some (.label (String.ofList name)))
  else
    match variableOf? s with
    | some d => (statementOfDeclaration d).map some
    | none => .ok (some (statementOfWords (Text.words s)))

/-- Reads line `number` of `file`. -/
def readLine (file : String) (number : Int) (raw : String) : Except LineError Line :=
  let location : Location := ⟨file, number, Text.indent raw.toList + 1⟩
  let stripped := Text.trim raw.toList
  let text := stripComment stripped
  if stripped.isEmpty then .ok ⟨.blank, "", location, raw⟩
  else if text.isEmpty then .ok ⟨.comment, String.ofList stripped, location, raw⟩
  else
    match statement text with
    | .error e => .error (.number e)
    | .ok none => .error (.diagnostic ⟨.namelessLabel, some location, some (Line.shown raw)⟩)
    | .ok (some s) => .ok ⟨s, String.ofList text, location, raw⟩

/-- The lines of a source text, numbered from one, each read on its own. -/
def readLines (file source : String) : List (Except LineError Line) :=
  (Text.lines source.toList).zipIdx.map fun (raw, i) =>
    readLine file (i + 1) (String.ofList raw)

end Source

end DecimalMachine
