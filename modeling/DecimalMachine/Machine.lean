import DecimalMachine.Memory
import DecimalMachine.Note
import DecimalMachine.Opcode
/-
  The machine: an accumulator, a program counter and the registers of the instruction at work,
  over a memory, with a queue of input tokens. One cycle fetches the word at the program counter,
  splits it and carries it out. An instruction that cannot be carried out stops the machine for
  good and changes neither accumulator nor memory.
-/
namespace DecimalMachine

structure Registers where
  accumulator : Int
  pc : Int
  instruction : Int
  opcode : Int
  operand : Int
deriving DecidableEq

/-- All registers zero but the program counter. -/
def Registers.startAt (origin : Int) : Registers := ⟨0, origin, 0, 0, 0⟩

inductive RunState
  | running
  | halted
  | faulted
deriving DecidableEq

def RunState.name : RunState → String
  | .running => "RUNNING"
  | .halted => "HALTED"
  | .faulted => "FAULTED"

/-- What a machine lets the outside see while it runs: lines it writes, tokens it asks for (none
    when there is no input left) and notes. -/
inductive Entry
  | wrote (line : String)
  | asked (token : Option String)
  | note (n : Note)

/-- A machine. `output`, `warnings` and `cycles` count from the last reset, the journal from the
    beginning; `resume` is the address before which the last run was stopped by its watch. -/
structure Machine where
  memory : Memory
  regs : Registers
  state : RunState
  input : List String
  output : Array String
  warnings : Array String
  cycles : Nat
  resume : Option Int
  journal : Array Entry

/-- What became of an instruction: the machine behind it, and why it failed if it did. -/
structure Attempt where
  machine : Machine
  failure : Option MachineError

namespace Machine

def new (memory : Memory) (input : List String) : Machine :=
  ⟨memory, .startAt 0, .running, input, #[], #[], 0, none, #[]⟩

/-- Starts over at an address. Memory, input and journal stay. -/
def reset (m : Machine) (origin : Int) : Machine :=
  { m with
    regs := .startAt origin, state := .running, output := #[], warnings := #[], cycles := 0,
    resume := none }

def isRunning (m : Machine) : Bool := m.state = .running

/-- The program counter is past the last cell. -/
def isPastEnd (m : Machine) : Bool := (m.memory.size : Int) ≤ m.regs.pc

def note (m : Machine) (n : Note) : Machine := { m with journal := m.journal.push (.note n) }

def debug (m : Machine) (text : String) : Machine := m.note (.debug text)

def warn (m : Machine) (text : String) : Machine :=
  { m.note (.warning text) with warnings := m.warnings.push text }

/-- The accumulator with its sign. -/
def accumulatorText (m : Machine) : String := String.ofList (Text.signed 4 m.regs.accumulator)

/-- Accumulator, program counter and state on one line, under a title. -/
def summary (m : Machine) (title : String) : String :=
  s!"{title}(acc={m.accumulatorText}, pc={twoDigits m.regs.pc}, state={m.state.name})"

/-- Every line ever written. -/
def written (m : Machine) : List String :=
  m.journal.toList.filterMap fun
    | .wrote line => some line
    | _ => none

/-! ## Outcomes of an instruction -/

def done (m : Machine) : Attempt := ⟨m, none⟩

/-- A failure. It leaves the machine faulted, unless it is a number that is too long. -/
def fail (m : Machine) (e : MachineError) : Attempt :=
  if e.isFatal then
    let m := m.debug s!"Fault at {twoDigits m.regs.pc}: {e.message}"
    ⟨{ m with state := .faulted }, some e⟩
  else ⟨m, some e⟩

/-- A fault of the operation at the program counter. -/
def faultIn (m : Machine) (op : Opcode) (f : Fault) : Attempt :=
  m.fail (.fault ⟨f, some m.regs.pc, some op.code⟩)

def failOutside (m : Machine) (a : Int) : Attempt := m.fail (m.memory.outside a)

/-! ## Instructions -/

def setAccumulator (m : Machine) (n : Int) : Machine :=
  { m with regs := { m.regs with accumulator := n } }

def setPc (m : Machine) (a : Int) : Machine := { m with regs := { m.regs with pc := a } }

/-- Makes a result the accumulator if it is in the range of words. -/
def setChecked (m : Machine) (op : Opcode) (result : Int) : Attempt :=
  if Word.inRange result then (m.setAccumulator result).done
  else
    match Text.writeNumeral result with
    | .ok _ => m.faultIn op (.overflow result)
    | .error e => m.fail (.number e)

def zeroDivisorMessage : String := "ERROR: Cannot divide by 0."

/-- Division drops the fraction. Division by zero gives zero, with a warning. -/
def divideBy (m : Machine) (op : Opcode) (n : Int) : Attempt :=
  if n = 0 then ((m.warn zeroDivisorMessage).setAccumulator 0).done
  else m.setChecked op (m.regs.accumulator.tdiv n)

/-- The remainder has the sign of the accumulator. -/
def remainderBy (m : Machine) (op : Opcode) (n : Int) : Attempt :=
  if n = 0 then m.faultIn op .moduloByZero
  else (m.setAccumulator (m.regs.accumulator.tmod n)).done

/-- What loading and the arithmetic operations do with their value. -/
def applyValue (m : Machine) (op : Opcode) (n : Int) : Attempt :=
  match op with
  | .load | .loadImm => (m.setAccumulator n).done
  | .add | .addImm => m.setChecked op (m.regs.accumulator + n)
  | .subtract | .subtractImm => m.setChecked op (m.regs.accumulator - n)
  | .multiply | .multiplyImm => m.setChecked op (m.regs.accumulator * n)
  | .divide | .divideImm => m.divideBy op n
  | .modulo | .moduloImm => m.remainderBy op n
  | _ => m.done

/-- The same with the number in a cell as the value. -/
def applyCell (m : Machine) (op : Opcode) (a : Int) : Attempt :=
  match m.memory.read? a with
  | none => m.failOutside a
  | some (.raw t) => m.faultIn op (.notNumeric a t)
  | some (.num n) => m.applyValue op n

def store (m : Machine) (a : Int) (c : Cell) : Attempt :=
  if m.memory.holds a then ({ m with memory := m.memory.set a c }).done else m.failOutside a

/-- Takes the first token of the input, if there is one. -/
def takeToken (m : Machine) : Machine :=
  { m with input := m.input.tail, journal := m.journal.push (.asked m.input.head?) }

/-- Reads a token into a cell: a number in the range of words, or a token that is no number. -/
def readInto (m : Machine) (a : Int) : Attempt :=
  let token := m.input.head?
  let m := m.takeToken
  match token with
  | none => m.faultIn .read .inputExhausted
  | some t =>
    match Word.parse t with
    | .error e => m.fail (.number e)
    | .ok none =>
      let shown := String.ofList (Text.quote t.toList)
      (m.debug s!"READ stored raw token {shown} at {twoDigits a}").store a (.raw t)
    | .ok (some n) =>
      if Word.inRange n then m.store a (.num n) else m.faultIn .read (.inputOutOfRange n)

/-- The line that a cell is written as. -/
def lineOf : Cell → String
  | .num n => String.ofList (Text.int n)
  | .raw t => s!"RESULT: {t}"

/-- Whether a cell can be written: its number may be too long. -/
def checkLine : Cell → Except DigitLimit Unit
  | .num n => (Text.writeNumeral n).map fun _ => ()
  | .raw _ => .ok ()

def writeFrom (m : Machine) (a : Int) : Attempt :=
  match m.memory.read? a with
  | none => m.failOutside a
  | some c =>
    match checkLine c with
    | .error e => m.fail (.number e)
    | .ok _ =>
      let line := lineOf c
      ({ m with output := m.output.push line, journal := m.journal.push (.wrote line) }).done

/-- Puts the program counter one before an address, as every instruction moves it on by one. -/
def jumpTo (m : Machine) (a : Int) : Machine := m.setPc (a - 1)

def halt (m : Machine) : Machine :=
  { m.debug s!"HALT at {twoDigits m.regs.pc}" with state := .halted }

/-- Carries out an operation with its operand. -/
def execute (m : Machine) (op : Opcode) (n : Int) : Attempt :=
  match op with
  | .read => m.readInto n
  | .write => m.writeFrom n
  | .store => m.store n (.num m.regs.accumulator)
  | .load | .add | .subtract | .divide | .modulo | .multiply => m.applyCell op n
  | .loadImm | .addImm | .subtractImm | .divideImm | .moduloImm | .multiplyImm =>
    m.applyValue op n
  | .jump => (m.jumpTo n).done
  | .jumpNegative => if m.regs.accumulator < 0 then (m.jumpTo n).done else m.done
  | .jumpZero => if m.regs.accumulator = 0 then (m.jumpTo n).done else m.done
  | .halt => m.halt.done

/-! ## The cycle -/

/-- Takes a word into the registers of the instruction at work. -/
def fetch (m : Machine) (w : Int) : Machine :=
  let (code, operand) := Word.split w
  { m with regs := { m.regs with instruction := w, opcode := code, operand } }

/-- Carries out the word that has been fetched. A code of no operation draws a warning, if it can
    be written. -/
def dispatch (m : Machine) : Attempt :=
  match Opcode.ofCode? m.regs.opcode with
  | some op => m.execute op m.regs.operand
  | none =>
    match Text.writeNumeral m.regs.opcode with
    | .ok _ => (m.warn s!"Unknown opcode: {m.regs.opcode}").done
    | .error e => m.fail (.number e)

/-- Counts a completed instruction and moves on, unless it was the last. -/
def advance (m : Machine) : Machine :=
  let m := { m with cycles := m.cycles + 1 }
  if m.isRunning then m.setPc (m.regs.pc + 1) else m

/-- One instruction: fetch, carry out, move on. -/
def cycle (m : Machine) : Attempt :=
  match m.memory.read? m.regs.pc with
  | none => m.failOutside m.regs.pc
  | some (.raw t) => m.fail (.fault ⟨.notInstruction t, some m.regs.pc, none⟩)
  | some (.num w) =>
    let r := (m.fetch w).dispatch
    if r.failure.isNone then r.machine.advance.done else r

end Machine

end DecimalMachine
