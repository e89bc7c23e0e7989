import DecimalMachine.Text.Numeral
import DecimalMachine.Text.Quoted
/-
  What can go wrong in a machine: faults of an instruction, addresses outside memory and
  numbers that are too long.
-/
namespace DecimalMachine

/-- Why an instruction cannot be carried out. -/
inductive Fault
  | overflow (result : Int)
  | moduloByZero
  | inputOutOfRange (value : Int)
  | inputExhausted
  | notNumeric (address : Int) (token : String)
  | notInstruction (token : String)
  | other (reason : String)
deriving DecidableEq

/-- A number in at least two characters. -/
def twoDigits (n : Int) : String := String.ofList (Text.zeroPadInt 2 n)

def Fault.reason : Fault → String
  | .overflow result =>
    let bound := if 0 < result then "upper" else "lower"
    s!"result {result} exceeds {bound} value limit"
  | .moduloByZero => "modulo by zero"
  | .inputOutOfRange value => s!"input {value} exceeds value limits"
  | .inputExhausted => "no input available for READ"
  | .notNumeric address token =>
    let shown := String.ofList (Text.quote token.toList)
    s!"memory[{twoDigits address}] holds non-numeric value {shown}"
  | .notInstruction token =>
    let shown := String.ofList (Text.quote token.toList)
    s!"cannot execute non-numeric word {shown}"
  | .other reason => reason

/-- A fault, and where and in which operation it arose if that is known. -/
structure FaultReport where
  fault : Fault
  pc : Option Int
  opcode : Option Int
deriving DecidableEq

def FaultReport.message (r : FaultReport) : String :=
  match r.pc with
  | some pc => s!"{r.fault.reason} (pc={twoDigits pc})"
  | none => r.fault.reason

/-- Why the machine cannot go on, or a cell cannot be read or written. -/
inductive MachineError
  | fault (r : FaultReport)
  | address (address : Int) (size : Int)
  | number (e : DigitLimit)
deriving DecidableEq

namespace MachineError

def message : MachineError → String
  | fault r => r.message
  | address a size => s!"address {a} outside memory (0-{size - 1})"
  | number e => e.message

/-- The error for an address outside memory, if it and the last address of the memory can be
    written. -/
def ofAddress (a size : Int) : Except DigitLimit MachineError := do
  discard <| Text.writeNumeral a
  discard <| Text.writeNumeral (size - 1)
  return address a size

/-- The error ends the run for good. A number that is too long does not. -/
def isFatal : MachineError → Bool
  | number _ => false
  | _ => true

end MachineError

end DecimalMachine
