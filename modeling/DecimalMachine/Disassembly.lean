import DecimalMachine.Fault
import DecimalMachine.Image
import DecimalMachine.Note
import DecimalMachine.Opcode
/-
  Disassembly: machine words as readable instructions, an image as a listing, and an image as a
  source text that assembles to the same words.
-/
namespace DecimalMachine

/-- A word of memory taken apart. A token that is no number has no word, and zero for its code
    and operand. -/
structure Decoded where
  address : Int
  word : Option Int
  code : Int
  operand : Int
  mnemonic : String
  text : String
  comment : String

namespace Decoded

/-- The operation of the word. -/
def opcode? (d : Decoded) : Option Opcode := if d.word.isSome then Opcode.ofCode? d.code else none

def isKnown (d : Decoded) : Bool := d.opcode?.isSome

/-- A word of no operation is taken to have an operand. -/
def hasOperand (d : Decoded) : Bool :=
  match d.opcode? with
  | some op => op.takesOperand
  | none => true

/-- A line with a comment behind it, from column 24 on. -/
def commented (line comment : String) : String :=
  if comment.isEmpty then line
  else
    let line := String.ofList (Text.padRight 24 line.toList)
    s!"{line} // {comment}"

def render (d : Decoded) : String :=
  let instruction :=
    if d.word.isNone || !d.hasOperand then d.mnemonic
    else s!"{d.mnemonic} {twoDigits d.operand}"
  commented s!"{twoDigits d.address}: {d.text}  {instruction}" d.comment

/-- The line of the listing, if its address can be written. -/
def write (d : Decoded) : Except DigitLimit String :=
  (Text.writeNumeral d.address).map fun _ => d.render

/-- Takes a text apart whose number is known; `names` name the cells that operands address. -/
def ofValue (names : AddressNames) (text : String) (value : Option Int) (address : Int) :
    Decoded :=
  match value with
  | none => ⟨address, none, 0, 0, s!"<{text}>", text, ""⟩
  | some w =>
    let (code, operand) := Word.split w
    match Opcode.ofCode? code with
    | none => ⟨address, some w, code, operand, "???", text, ""⟩
    | some op =>
      let comment := if op.addressesCell then (names.get? operand).getD "" else ""
      ⟨address, some w, code, operand, op.mnemonic, text, comment⟩

def ofWord (names : AddressNames) (w : Int) (address : Int) : Decoded :=
  ofValue names (Word.render w) (some w) address

def ofText (names : AddressNames) (s : String) (address : Int) : Except DigitLimit Decoded :=
  let text := String.ofList (Text.trim s.toList)
  (Word.parse text).map fun value => ofValue names text value address

/-- Texts at consecutive addresses. -/
def ofTexts (names : AddressNames) (start : Int) : List String → Except DigitLimit (List Decoded)
  | [] => .ok []
  | s :: r =>
    match ofText names s start with
    | .error e => .error e
    | .ok d => (ofTexts names (start + 1) r).map (d :: ·)

end Decoded

/-- The names that a disassembler knows: those it was given, and those of the images it has
    seen. -/
structure Disassembler where
  names : AddressNames

namespace Disassembler

/-- Learns the names of an image, where it knows none. -/
def learn (d : Disassembler) (i : Image) : Disassembler := ⟨d.names.orElse i.names⟩

/-- The instructions of an image. -/
def decodeImage (d : Disassembler) (i : Image) :
    Disassembler × Except DigitLimit (List Decoded) :=
  let d := d.learn i
  (d, Decoded.ofTexts d.names i.origin i.code)

/-! ## Listing -/

def dataRow (d : Disassembler) (address : Nat) (word : String) : String :=
  Decoded.commented s!"{twoDigits address}: {word}" ((d.names.get? address).getD "")

def listingLines (d : Disassembler) (i : Image) (code : List Decoded) : List String :=
  s!"// Data (addresses 0-{i.origin - 1})" ::
    (i.data.zipIdx.map fun (word, address) => d.dataRow address word) ++
    s!"// Code (starting at address {i.origin})" :: code.map Decoded.render

def listing (d : Disassembler) (i : Image) : Disassembler × Except DigitLimit String :=
  let (d, code) := d.decodeImage i
  (d, do
    let code ← code
    i.checkOrigin
    pure ("\n".intercalate (d.listingLines i code)))

/-! ## Source -/

/-- Lines of source, the notes made with them, and the number that could not be read or written if
    there was one. -/
structure SourceText where
  lines : List String
  notes : List Note
  failure : Option DigitLimit

/-- The name of a data address: its own, or one made from the address. -/
def dataName (i : Image) (address : Nat) : String :=
  match i.names.get? address with
  | some name => if name.isEmpty then s!"v{twoDigits address}" else name
  | none => s!"v{twoDigits address}"

/-- Declarations for data words, the first of them at an address. A word that is no number
    becomes zero. -/
def declarations (i : Image) (address : Nat) : List String → SourceText
  | [] => ⟨[], [], none⟩
  | word :: r =>
    match Word.parse word with
    | .error e => ⟨[], [], some e⟩
    | .ok value =>
      let rest := declarations i (address + 1) r
      let shown := String.ofList (Text.quote word.toList)
      let notes :=
        if value.isSome then []
        else [Note.warning s!"data word {shown} at {twoDigits address} is not numeric"]
      ⟨s!"{dataName i address} = {value.getD 0}" :: rest.lines, notes ++ rest.notes,
        rest.failure⟩

/-- The instruction that has a word, if there is one. -/
def instruction? (d : Decoded) : Option String :=
  match d.opcode? with
  | none => none
  | some op =>
    if op.takesOperand then some s!"{op.mnemonic} {d.operand}"
    else if d.operand = 0 then some op.mnemonic
    else none

/-- The source line of a word; a word that no instruction has becomes a comment with its address. -/
def sourceLine (d : Decoded) : String × List Note :=
  match instruction? d with
  | some line => (line, [])
  | none => (s!"// {twoDigits d.address}: {d.text}",
      [Note.warning s!"word {d.text} at {twoDigits d.address} has no source form"])

/-- The source line of a word can be written. An address in front of zero may be too long for a
    comment; any other is an index into the words of an image, and no list has so many. -/
def HasSourceLine (d : Decoded) : Prop :=
  (instruction? d).isSome = true ∨ 0 ≤ d.address ∨ Text.IsWritable d.address

instance (d : Decoded) : Decidable (HasSourceLine d) :=
  inferInstanceAs (Decidable (_ ∨ _ ∨ _))

/-- The source lines of words. -/
def sourceLines : List Decoded → SourceText
  | [] => ⟨[], [], none⟩
  | d :: r =>
    if HasSourceLine d then
      let rest := sourceLines r
      let (line, notes) := sourceLine d
      ⟨line :: rest.lines, notes ++ rest.notes, rest.failure⟩
    else ⟨[], [], some .writing⟩

/-- A source text for an image: declarations for the data, then the instructions with their
    operands as numbers, so that every address stays what it is. -/
def source (d : Disassembler) (i : Image) :
    Disassembler × List Note × Except DigitLimit String :=
  let decls := declarations i 0 i.data
  match decls.failure with
  | some e => (d, decls.notes, .error e)
  | none =>
    let (d, code) := d.decodeImage i
    match code with
    | .error e => (d, decls.notes, .error e)
    | .ok code =>
      let code := sourceLines code
      let text := "\n".intercalate (decls.lines ++ code.lines) ++ "\n"
      (d, decls.notes ++ code.notes,
        match code.failure with
        | some e => .error e
        | none => .ok text)

end Disassembler

end DecimalMachine
