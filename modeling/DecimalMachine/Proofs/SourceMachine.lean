import DecimalMachine.Machine
import DecimalMachine.Proofs.SourceNames
/-
  The machine of a source: what a source text does, told from its lines alone. There are no
  addresses and no words here: variables are kept in a store under their names, a jump goes to the
  first instruction behind a label, and the place in the program is an index into the instruction
  lines. An immediate operand is the number that it resolves to.
-/
namespace DecimalMachine.Source

/-! ## Failures -/

/-- Why an instruction cannot be carried out. -/
inductive Cause
  | overflow (result : Int)
  | moduloByZero
  | inputOutOfRange (value : Int)
  | inputExhausted
  | notNumeric (name token : String)

/-- A fault of an operation, or a token that is too long for a number. Only a fault ends the
    program. -/
inductive Failure
  | fault (c : Cause) (op : Opcode)
  | number (e : DigitLimit)

/-! ## States -/

structure State where
  store : String → Cell
  accumulator : Int
  index : Nat
  state : RunState
  input : List String
  output : Array String
  warnings : Array String

/-- The state behind an instruction, and why it failed if it did. -/
structure Step where
  state : State
  failure : Option Failure

/-- Every variable has the value of its first declaration. -/
def start (lines : List Line) (input : List String) : State :=
  ⟨fun x => .num ((initial? lines x).getD 0), 0, 0, .running, input, #[], #[]⟩

/-- The number of an immediate operand. -/
def number? (lines : List Line) (x : String) : Option Nat :=
  if Text.isDigits x.toList then (Text.natOfDigits x.toList).toOption
  else
    match target? lines x with
    | some i => some (origin lines + i)
    | none => if x ∈ declared lines then some ((declared lines).idxOf x) else none

namespace State

def put (s : State) (x : String) (c : Cell) : State :=
  { s with store := fun y => if y = x then c else s.store y }

def goTo (s : State) (i : Nat) : Step := ⟨{ s with index := i }, none⟩

/-- On to the next instruction. -/
def goOn (s : State) : Step := s.goTo (s.index + 1)

def fail (s : State) (op : Opcode) (c : Cause) : Step :=
  ⟨{ s with state := .faulted }, some (.fault c op)⟩

/-! ## Instructions -/

/-- Makes a result the accumulator if it is in the range of words. -/
def accept (s : State) (op : Opcode) (result : Int) : Step :=
  if Word.inRange result then { s with accumulator := result }.goOn
  else s.fail op (.overflow result)

/-- Loads a value, or calculates with it. -/
def calculate (s : State) (op : Opcode) (v : Int) : Step :=
  match op with
  | .load | .loadImm => { s with accumulator := v }.goOn
  | .add | .addImm => s.accept op (s.accumulator + v)
  | .subtract | .subtractImm => s.accept op (s.accumulator - v)
  | .multiply | .multiplyImm => s.accept op (s.accumulator * v)
  | .divide | .divideImm =>
    if v = 0 then
      { s with
        accumulator := 0, warnings := s.warnings.push Machine.zeroDivisorMessage }.goOn
    else s.accept op (s.accumulator.tdiv v)
  | .modulo | .moduloImm =>
    if v = 0 then s.fail op .moduloByZero
    else { s with accumulator := s.accumulator.tmod v }.goOn
  | _ => ⟨s, none⟩

/-- Reads the next token of the input into a variable. -/
def read (s : State) (x : String) : Step :=
  match s.input with
  | [] => s.fail .read .inputExhausted
  | t :: rest =>
    let s := { s with input := rest }
    match Word.parse t with
    | .error e => ⟨s, some (.number e)⟩
    | .ok none => (s.put x (.raw t)).goOn
    | .ok (some v) =>
      if Word.inRange v then (s.put x (.num v)).goOn else s.fail .read (.inputOutOfRange v)

/-- Carries out an operation on a variable. -/
def access (s : State) (op : Opcode) (x : String) : Step :=
  match op with
  | .read => s.read x
  | .write => { s with output := s.output.push (Machine.lineOf (s.store x)) }.goOn
  | .store => (s.put x (.num s.accumulator)).goOn
  | _ =>
    match s.store x with
    | .num v => s.calculate op v
    | .raw t => s.fail op (.notNumeric x t)

def jumps (s : State) : Opcode → Bool
  | .jump => true
  | .jumpNegative => s.accumulator < 0
  | .jumpZero => s.accumulator = 0
  | _ => false

/-- Carries out an operation with its operand. -/
def carryOut (lines : List Line) (s : State) (op : Opcode) (x : String) : Step :=
  if op.isJump then
    match target? lines x with
    | some i => if s.jumps op then s.goTo i else s.goOn
    | none => ⟨s, none⟩
  else if op.isImmediate then
    match number? lines x with
    | some n => s.calculate op n
    | none => ⟨s, none⟩
  else s.access op x

end State

/-! ## Steps -/

/-- Carries out the instruction of a line. -/
def State.obey (lines : List Line) (s : State) (l : Line) : Step :=
  match l.statement with
  | .instruction mnemonic operand _ =>
    match Opcode.ofMnemonic? mnemonic, operand with
    | some .halt, _ => ⟨{ s with state := .halted }, none⟩
    | some op, some x => s.carryOut lines op x
    | _, _ => ⟨s, none⟩
  | _ => ⟨s, none⟩

/-- Carries out the next instruction, if the program runs and has one. -/
def step (lines : List Line) (s : State) : Step :=
  match s.state, (code lines)[s.index]? with
  | .running, some l => s.obey lines l
  | _, _ => ⟨s, none⟩

/-- The state behind `k` steps. -/
def run (lines : List Line) (s : State) : Nat → State
  | 0 => s
  | k + 1 => (step lines (run lines s k)).state

/-! ## Operands -/

theorem number?_of_means {lines : List Line} {x : String} {n : Nat} {res : Resolution}
    (h : Means lines x n res) : number? lines x = some n := by
  unfold number?
  cases h with
  | literal hx hn =>
    rw [if_pos hx, hn]
    rfl
  | label hx hi => rw [hx, if_neg Bool.false_ne_true, hi]
  | cell hx hi hv =>
    rw [hx, if_neg Bool.false_ne_true, hi]
    exact if_pos hv

end DecimalMachine.Source
