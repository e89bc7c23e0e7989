import DecimalMachine.Text.Numeral
/-
  Machine words: signed decimal numbers of four digits. An instruction word is an operation
  code in the upper two digits and an operand in the lower two.
-/
namespace DecimalMachine.Word

def least : Int := -9999

def greatest : Int := 9999

def digits : Nat := 4

/-- The greatest operand that fits in two digits. -/
def greatestOperand : Int := 99

def inRange (n : Int) : Bool := least ≤ n && n ≤ greatest

theorem inRange_iff {n : Int} : inRange n = true ↔ -9999 ≤ n ∧ n ≤ 9999 := by
  simp only [inRange, Bool.and_eq_true, decide_eq_true_eq]
  exact Iff.rfl

/-- The instruction word of a code and an operand. An operand of more than two digits carries
    into the code. -/
def join (code operand : Int) : Int := code * 100 + operand

/-- The code and the operand of an instruction word, both with the sign of the word. -/
def split (w : Int) : Int × Int := (w.tdiv 100, w.tmod 100)

theorem join_split (w : Int) : join (split w).1 (split w).2 = w := by
  simp only [join, split]
  have := Int.mul_tdiv_add_tmod w 100
  omega

/-- The four digits of a word, after a minus sign if it is negative. -/
def text (n : Int) : List Char :=
  if n < 0 then '-' :: Text.zeroPad digits n.natAbs else Text.zeroPad digits n.natAbs

def render (n : Int) : String := String.ofList (text n)

/-- The number that a text stands for, none if it is no numeral. -/
def parse (s : String) : Except DigitLimit (Option Int) := Text.readNumeral s.toList

end DecimalMachine.Word
