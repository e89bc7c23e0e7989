import DecimalMachine.Capacity
import DecimalMachine.Fault
import DecimalMachine.Image
import DecimalMachine.Note
/-
  Memory: a fixed number of cells, each of which holds a number or a token that is no number.
-/
namespace DecimalMachine

inductive Cell
  | num (value : Int)
  | raw (token : String)
deriving DecidableEq

namespace Cell

def zero : Cell := .num 0

def render : Cell → String
  | num n => Word.render n
  | raw t => t

/-- The number, if the cell holds one. -/
def value? : Cell → Option Int
  | num n => some n
  | raw _ => none

/-- The cell that a text is stored as: a number if the text is a numeral, else the text. -/
def ofText (s : String) : Except DigitLimit Cell :=
  (Word.parse s).map fun
    | some n => num n
    | none => raw s

end Cell

/-- Why there is no memory of a size. -/
inductive SizeFault
  | notPositive (size : Int)
  | tooLarge (f : CapacityFault)

def SizeFault.message : SizeFault → String
  | notPositive size => s!"memory size must be positive, got {size}"
  | tooLarge f => f.message

/-- There is memory of so many cells: one or more, each with an index. -/
def IsMemorySize (n : Nat) : Prop := 0 < n ∧ n < Capacity.indices

instance (n : Nat) : Decidable (IsMemorySize n) := inferInstanceAs (Decidable (_ ∧ _))

/-- Cells at the addresses from zero. -/
structure Memory where
  cells : Array Cell
  sized : IsMemorySize cells.size

namespace Memory

def size (m : Memory) : Nat := m.cells.size

theorem size_lt (m : Memory) : m.size < Capacity.indices := m.sized.2

/-- Cells that all hold zero. -/
def zeros (size : Nat) (h : IsMemorySize size) : Memory :=
  ⟨Array.replicate size .zero, by simpa using h⟩

theorem size_zeros (size : Nat) (h : IsMemorySize size) : (zeros size h).size = size := by
  simp [zeros, Memory.size]

/-- Memory of a size that is asked for, all its cells zero. -/
def ofSize (size : Int) : Except SizeFault Memory :=
  if h : 0 < size then
    match hc : Capacity.check size.toNat with
    | .ok _ => .ok (zeros size.toNat ⟨by omega, Capacity.lt_of_check hc⟩)
    | .error f => .error (.tooLarge f)
  else .error (.notPositive size)

def clear (m : Memory) : Memory := zeros m.cells.size m.sized

theorem size_clear (m : Memory) : m.clear.size = m.size := size_zeros ..

/-- The address is one of a cell. -/
def holds (m : Memory) (a : Int) : Bool := 0 ≤ a && a < m.size

/-- The error for an address that is not one of a cell. -/
def outside (m : Memory) (a : Int) : MachineError :=
  match MachineError.ofAddress a m.size with
  | .ok e => e
  | .error e => .number e

def read? (m : Memory) (a : Int) : Option Cell := if 0 ≤ a then m.cells[a.toNat]? else none

def read (m : Memory) (a : Int) : Except MachineError Cell :=
  match m.read? a with
  | some c => .ok c
  | none => .error (m.outside a)

/-- Stores a cell at an address that memory holds; elsewhere nothing changes. -/
def set (m : Memory) (a : Int) (c : Cell) : Memory :=
  if 0 ≤ a then ⟨m.cells.setIfInBounds a.toNat c, by simpa using m.sized⟩ else m

theorem size_set (m : Memory) (a : Int) (c : Cell) : (m.set a c).size = m.size := by
  unfold set size; split <;> simp

def write (m : Memory) (a : Int) (c : Cell) : Except MachineError Memory :=
  if m.holds a then .ok (m.set a c) else .error (m.outside a)

/-- Stores a text, as a number if it is a numeral. -/
def writeText (m : Memory) (a : Int) (s : String) : Except MachineError Memory :=
  match Cell.ofText s with
  | .ok c => m.write a c
  | .error e => .error (.number e)

/-- Stores texts at consecutive addresses. Those before one that cannot be stored stay. -/
def writeTexts (m : Memory) (start : Int) : List String → Memory × Except MachineError Nat
  | [] => (m, .ok 0)
  | s :: r =>
    match Cell.ofText s with
    | .error e => (m, .error (.number e))
    | .ok c =>
      if m.holds start then
        let (m, count) := (m.set start c).writeTexts (start + 1) r
        (m, count.map (· + 1))
      else (m, .error (m.outside start))

/-- Stores cells at consecutive addresses. -/
def setAll (m : Memory) (start : Nat) : List Cell → Memory
  | [] => m
  | c :: r => (m.set start c).setAll (start + 1) r

/-- How many cells hold something other than zero. -/
def used (m : Memory) : Nat := m.cells.countP (· ≠ .zero)

def summary (m : Memory) : String := s!"Memory(size={m.size}, used={m.used})"

end Memory

namespace Image

/-- The first word that is a number outside the range of words. -/
def outOfRange? : Nat → List String → List (Option Int) → Option ImageError
  | address, w :: ws, n :: ns =>
    if n.any fun n => !Word.inRange n then some (.cellOutOfRange address w)
    else outOfRange? (address + 1) ws ns
  | _, _, _ => none

/-- The cells of the words of an image, if they fit in memory. -/
def cellsFor (i : Image) (m : Memory) : Except ImageError (List Cell) :=
  if m.size < i.words.length then .error (.tooManyWords i.words.length m.size)
  else
    match i.numbers with
    | .error e => .error (.number e)
    | .ok numbers =>
      match outOfRange? 0 i.words numbers with
      | some e => .error e
      | none => .ok (List.zipWith (fun w n => n.elim (.raw w) .num) i.words numbers)

/-- The note that loading leaves, unless the origin is too long for it. -/
def loadedNote (i : Image) : Except DigitLimit Note :=
  (Text.writeNumeral i.origin).map fun _ =>
    .debug s!"Loaded {i.words.length} words, instruction origin {i.origin}"

/-- Stores the words of an image from address zero on, or nothing if one does not fit. The note on
    it comes last, and when it fails the words stay. -/
def loadOver (i : Image) (m : Memory) : Memory × Except ImageError Note :=
  match i.cellsFor m with
  | .error e => (m, .error e)
  | .ok cells => (m.setAll 0 cells, i.loadedNote.mapError .number)

/-- Memory with an image loaded into it. -/
def loadInto (i : Image) (m : Memory) : Except ImageError Memory :=
  let (m, noted) := i.loadOver m
  noted.map fun _ => m

end Image

end DecimalMachine
