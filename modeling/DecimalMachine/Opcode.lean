import DecimalMachine.Text.Upper
/-
  The instruction set: operation codes, their mnemonics and what their operands are.
-/
namespace DecimalMachine

/-- The operations. Those that end in `Imm` take the operand itself where their namesake takes
    the cell at that address. -/
inductive Opcode
  | read | write | load | store | loadImm
  | add | subtract | divide | modulo | multiply
  | addImm | subtractImm | divideImm | moduloImm | multiplyImm
  | jump | jumpNegative | jumpZero | halt
deriving DecidableEq

namespace Opcode

/-- All operations, in the order of their codes. -/
def all : List Opcode :=
  [.read, .write, .load, .store, .loadImm, .add, .subtract, .divide, .modulo, .multiply,
    .addImm, .subtractImm, .divideImm, .moduloImm, .multiplyImm, .jump, .jumpNegative,
    .jumpZero, .halt]

theorem mem_all (op : Opcode) : op ∈ all := by cases op <;> decide

def code : Opcode → Int
  | .read => 10
  | .write => 11
  | .load => 20
  | .store => 21
  | .loadImm => 22
  | .add => 30
  | .subtract => 31
  | .divide => 32
  | .modulo => 33
  | .multiply => 34
  | .addImm => 35
  | .subtractImm => 36
  | .divideImm => 37
  | .moduloImm => 38
  | .multiplyImm => 39
  | .jump => 40
  | .jumpNegative => 41
  | .jumpZero => 42
  | .halt => 43

theorem code_pos (op : Opcode) : 0 < op.code := by cases op <;> decide

theorem code_le (op : Opcode) : op.code ≤ 43 := by cases op <;> decide

def ofCode? : Int → Option Opcode
  | 10 => some .read
  | 11 => some .write
  | 20 => some .load
  | 21 => some .store
  | 22 => some .loadImm
  | 30 => some .add
  | 31 => some .subtract
  | 32 => some .divide
  | 33 => some .modulo
  | 34 => some .multiply
  | 35 => some .addImm
  | 36 => some .subtractImm
  | 37 => some .divideImm
  | 38 => some .moduloImm
  | 39 => some .multiplyImm
  | 40 => some .jump
  | 41 => some .jumpNegative
  | 42 => some .jumpZero
  | 43 => some .halt
  | _ => none

theorem ofCode?_code (op : Opcode) : ofCode? op.code = some op := by cases op <;> rfl

theorem code_of_ofCode? {n : Int} {op : Opcode} (h : ofCode? n = some op) : op.code = n := by
  unfold ofCode? at h
  split at h <;> first | (cases h; rfl) | cases h

/-- Every spelling that an operation is written with. The first is the one it is shown with. -/
def spellings : Opcode → String × List String
  | .read => ("READ", [])
  | .write => ("WRITE", [])
  | .load => ("LOAD", ["LOADM"])
  | .store => ("STORE", [])
  | .loadImm => ("LOADI", [])
  | .add => ("ADD", ["ADDM"])
  | .subtract => ("SUBT", ["SUBTM"])
  | .divide => ("DIV", ["DIVM"])
  | .modulo => ("MOD", ["MODM"])
  | .multiply => ("MULT", ["MULTM"])
  | .addImm => ("ADDI", [])
  | .subtractImm => ("SUBTI", [])
  | .divideImm => ("DIVI", [])
  | .moduloImm => ("MODI", [])
  | .multiplyImm => ("MULTI", [])
  | .jump => ("JUMP", ["JMP"])
  | .jumpNegative => ("JUMPN", ["JMPN"])
  | .jumpZero => ("JUMPZ", ["JMPZ"])
  | .halt => ("HALT", [])

def mnemonic (op : Opcode) : String := op.spellings.1

def mnemonics (op : Opcode) : List String := op.spellings.1 :: op.spellings.2

def takesOperand (op : Opcode) : Bool := op ≠ .halt

/-- The operand is the value itself and not an address. -/
def isImmediate : Opcode → Bool
  | .loadImm | .addImm | .subtractImm | .divideImm | .moduloImm | .multiplyImm => true
  | _ => false

def isArithmetic : Opcode → Bool
  | .add | .subtract | .divide | .modulo | .multiply
  | .addImm | .subtractImm | .divideImm | .moduloImm | .multiplyImm => true
  | _ => false

def isJump : Opcode → Bool
  | .jump | .jumpNegative | .jumpZero => true
  | _ => false

/-- The operand is the address of a cell that is read or written. -/
def addressesCell (op : Opcode) : Bool := op.takesOperand && !op.isImmediate && !op.isJump

def description : Opcode → String
  | .read => "read input into memory"
  | .write => "write memory to output"
  | .load => "load memory into accumulator"
  | .store => "store accumulator into memory"
  | .loadImm => "load literal into accumulator"
  | .add => "add memory"
  | .subtract => "subtract memory"
  | .divide => "divide by memory"
  | .modulo => "remainder by memory"
  | .multiply => "multiply by memory"
  | .addImm => "add literal"
  | .subtractImm => "subtract literal"
  | .divideImm => "divide by literal"
  | .moduloImm => "remainder by literal"
  | .multiplyImm => "multiply by literal"
  | .jump => "jump"
  | .jumpNegative => "jump if accumulator < 0"
  | .jumpZero => "jump if accumulator == 0"
  | .halt => "stop execution"

/-- The operation that a name stands for, in whatever case it is written. -/
def ofMnemonic? (name : String) : Option Opcode :=
  all.find? fun op => op.mnemonics.contains (String.ofList (Text.upper name.toList))

def isMnemonic (name : String) : Bool := (ofMnemonic? name).isSome

/-- Every mnemonic, in alphabetical order. -/
def allMnemonics : List String := (all.flatMap mnemonics).mergeSort (· ≤ ·)

end Opcode

end DecimalMachine
