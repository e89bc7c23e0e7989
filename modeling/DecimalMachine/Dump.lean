import DecimalMachine.Machine
import DecimalMachine.Text.Blank
/-
  Dumps: the registers and the memory of a machine as text, before the instruction at the
  program counter.
-/
namespace DecimalMachine.Dump

/-- A label, a gap and a value. -/
def labelled (label : String) (gap : Nat) (value : String) : String :=
  label ++ String.ofList (Text.blanks gap) ++ value

/-- The word at the program counter, its code and its operand, as they are shown. -/
def instructionTexts : Option Cell → String × String × String
  | none => ("----", "--", "--")
  | some (.raw t) => (t, "--", "--")
  | some (.num w) =>
    (Word.render w, String.ofList (Text.zeroPad 2 (w.natAbs / 100)),
      String.ofList (Text.zeroPad 2 (w.natAbs % 100)))

def registerLines (m : Machine) : List String :=
  let (word, code, operand) := instructionTexts (m.memory.read? m.regs.pc)
  ["REGISTERS:",
    labelled "accumulator:" 11 m.accumulatorText,
    labelled "programCounter:" 11 (twoDigits m.regs.pc),
    labelled "instructionRegister:" 3 (String.ofList (Text.padLeft 5 word.toList)),
    labelled "operationCode:" 12 code,
    labelled "operand:" 18 operand]

def registers (m : Machine) : String := "\n".intercalate (registerLines m)

/-- How many cells stand in a row. -/
def columns : Nat := 10

/-- A cell in the grid; a number has its sign. -/
def cellText : Cell → List Char
  | .num n => Text.signed 4 n
  | .raw t => t.toList

/-- A field of the grid, at least five characters wide, and the gap behind it. -/
def field (s : List Char) : List Char := Text.padLeft 5 s ++ Text.blanks 4

def trimmed (s : List Char) : String := String.ofList (Text.trimRight s)

def header : String :=
  trimmed (Text.blanks 6 ++ (List.range columns).flatMap fun i => field (Text.zeroPad 0 i))

/-- A row of the grid: the address of its first cell, then its cells. -/
def row (address : Nat) (cells : List Cell) : String :=
  trimmed (Text.zeroPad 2 address ++ Text.blanks 4 ++ cells.flatMap fun c => field (cellText c))

/-- The rows of the grid for cells from an address on; `rows` is at least their number. -/
def gridRows : (rows address : Nat) → List Cell → List String
  | 0, _, _ => []
  | _, _, [] => []
  | rows + 1, address, cells =>
    row address (cells.take columns) :: gridRows rows (address + columns) (cells.drop columns)

def memoryLines (m : Memory) : List String :=
  "MEMORY:" :: header :: gridRows m.size 0 m.cells.toList

def memory (m : Memory) : String := "\n".intercalate (memoryLines m)

/-- Registers, a blank line, memory. -/
def all (m : Machine) : String := registers m ++ "\n\n" ++ memory m.memory

end DecimalMachine.Dump
