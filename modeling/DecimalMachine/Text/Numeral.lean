import DecimalMachine.Text.Blank
import DecimalMachine.Text.DecimalDigit
import DecimalMachine.Text.Layout
/-
  Numerals: reading signed decimal numbers. A numeral is a run of ASCII digits with an optional
  sign; a loose numeral may have blanks around it, digits of any script and single underscores
  between digits. Neither may have more than `maxDigits` digits.
-/
namespace DecimalMachine

/-- The most digits a number may have when it is read from a text or written as one. -/
def maxDigits : Nat := 4300

/-- A number with more than `maxDigits` digits. -/
inductive DigitLimit
  | reading (digits : Nat)
  | writing
deriving DecidableEq

def DigitLimit.message (e : DigitLimit) : String :=
  let found := match e with
    | .reading n => s!": value has {n} digits"
    | .writing => ""
  s!"Exceeds the limit ({maxDigits} digits) for integer string conversion{found}; " ++
    "use sys.set_int_max_str_digits() to increase the limit"

namespace Text

/-- Whether a numeral has a minus sign, and what follows the sign. -/
def splitSign : List Char → Bool × List Char
  | '-' :: r => (true, r)
  | '+' :: r => (false, r)
  | s => (false, s)

def isDigits (s : List Char) : Bool := !s.isEmpty && s.all Char.isDigit

/-- An optional sign and one or more digits. -/
def isNumeral (s : List Char) : Bool := isDigits (splitSign s).2

def applySign (negative : Bool) (n : Nat) : Int := if negative then -n else n

/-- The number that a run of digits stands for. -/
def natOfDigits (s : List Char) : Except DigitLimit Nat :=
  if s.length ≤ maxDigits then .ok (Nat.ofDigitChars 10 s 0) else .error (.reading s.length)

/-- The number that a numeral stands for. -/
def intOfNumeral (s : List Char) : Except DigitLimit Int :=
  (natOfDigits (splitSign s).2).map (applySign (splitSign s).1)

/-- The number that a text stands for; none when the text, less the blanks around it, is no
    numeral. -/
def readNumeral (s : List Char) : Except DigitLimit (Option Int) :=
  if isNumeral (trim s) then (intOfNumeral (trim s)).map some else .ok none

/-- The number has few enough digits to be written. -/
def IsWritable (n : Int) : Prop := (Nat.toDigits 10 n.natAbs).length ≤ maxDigits

instance (n : Int) : Decidable (IsWritable n) := inferInstanceAs (Decidable (_ ≤ _))

/-- The text of a number. -/
def writeNumeral (n : Int) : Except DigitLimit (List Char) :=
  if (Nat.toDigits 10 n.natAbs).length ≤ maxDigits then .ok (int n) else .error .writing

theorem writeNumeral_of_writable {n : Int} (h : IsWritable n) : writeNumeral n = .ok (int n) := if_pos h

theorem writeNumeral_of_not_writable {n : Int} (h : ¬IsWritable n) : writeNumeral n = .error .writing :=
  if_neg h

/-- The blanks that may surround a loose numeral; the separators `1c`–`1f` may not. -/
def isLooseBlank (c : Char) : Bool := isBlank c && !(28 ≤ c.toNat && c.toNat ≤ 31)

/-- The number that a loose numeral stands for. -/
def readLooseNumeral (s : List Char) : Option Int := do
  let s := ((s.dropWhile isLooseBlank).reverse.dropWhile isLooseBlank).reverse
  let (negative, s) := splitSign s
  let groups ← (s.splitOnP (· == '_')).mapM fun g =>
    if g.isEmpty then none else g.mapM decimalDigit?
  let digits := groups.flatten
  if digits.length ≤ maxDigits then
    some (applySign negative (digits.foldl (fun n d => 10 * n + d) 0))
  else none

end Text

end DecimalMachine
