import DecimalMachine.Image
import DecimalMachine.Source.Line
/-
  Assembled programs: the variables and labels of a source, its instructions as words, and the
  image, listing and tables made from them.
-/
namespace DecimalMachine

/-- A variable: its address in the data, and its value before the program runs. -/
structure Symbol where
  name : String
  address : Nat
  initial : Int
  location : Location

/-- A name for the address of an instruction. -/
structure Label where
  name : String
  address : Nat
  location : Location

/-- What an operand turned out to be. -/
inductive Resolution
  | literal
  | label
  | variable
  | undefined
deriving DecidableEq

/-- An instruction with its word and the line it came from. An operation without operand has no
    resolution. -/
structure Instruction where
  address : Nat
  word : Int
  opcode : Opcode
  operand : Nat
  line : Line
  resolution : Option Resolution

structure Program where
  symbols : List Symbol
  labels : List Label
  instructions : List Instruction
  warnings : List String
  filename : String

namespace Program

/-- The address of the first instruction: the data come before it. -/
def origin (p : Program) : Nat := p.symbols.length

/-- The variables by address. -/
def symbolsByAddress (p : Program) : List Symbol :=
  p.symbols.mergeSort fun a b => a.address ≤ b.address

theorem length_symbolsByAddress (p : Program) : p.symbolsByAddress.length = p.symbols.length :=
  List.length_mergeSort _

theorem mem_symbolsByAddress {p : Program} {s : Symbol} : s ∈ p.symbolsByAddress ↔ s ∈ p.symbols :=
  List.mem_mergeSort

def data (p : Program) : List String := p.symbolsByAddress.map fun s => Word.render s.initial

def code (p : Program) : List String := p.instructions.map fun i => Word.render i.word

/-- How many words the program takes. -/
def size (p : Program) : Nat := p.origin + p.instructions.length

def toImage (p : Program) : Image :=
  ⟨p.data ++ p.code, p.origin, .ofList (p.symbolsByAddress.map fun s => (s.address, s.name))⟩

/-- The labels by address; labels of one address keep their order. -/
def labelsByAddress (p : Program) : List Label :=
  p.labels.mergeSort fun a b => a.address ≤ b.address

def address2 (n : Nat) : String := String.ofList (Text.zeroPad 2 n)

/-! ## Tables -/

def tableLines (p : Program) : List String :=
  "Symbol Table:" :: (p.symbolsByAddress.map fun s => s!"  {s.name} -> {s.address}") ++
    "" :: "Label Table:" :: p.labelsByAddress.map fun l => s!"  {l.name} -> {l.address}"

def tables (p : Program) : String := "\n".intercalate p.tableLines

/-! ## Listing -/

/-- A row of the listing. -/
def row (address : Nat) (word : Int) (line : Int) (text : String) : String :=
  let word := String.ofList (Text.padRight 6 (Word.text word))
  let line := String.ofList (Text.padLeft 4 (Text.int line))
  s!"{address2 address}    {word} {line}  {text}"

def rows (p : Program) : List String :=
  (p.symbolsByAddress.map fun s => row s.address s.initial s.location.line s.name) ++
    p.instructions.map fun i => row i.address i.word i.line.location.line i.line.text

def rule (c : Char) : String := String.ofList (List.replicate 60 c)

def heading : List String :=
  ["SML Assembler Listing", rule '=', "", "Addr  Word   Line  Source", rule '-']

def listing (p : Program) : String :=
  "\n".intercalate (heading ++ p.rows ++ ["", p.tables])

def listingFile (p : Program) : String := p.listing ++ "\n"

/-! ## Symbol file -/

def symbolFileLines (p : Program) : List String :=
  ["# Symbol table", "# Generated by smlasm"] ++
    (p.symbolsByAddress.map fun s => s!"{s.name} {address2 s.address}") ++
    "# Labels" :: p.labelsByAddress.map fun l => s!"{l.name} {address2 l.address}"

def symbolFile (p : Program) : String := String.join (p.symbolFileLines.map (· ++ "\n"))

end Program

end DecimalMachine
