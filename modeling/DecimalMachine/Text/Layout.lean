/-
  Columns of fixed width: filling a text with blanks on one side, and writing numbers with
  zeros in front.
-/
namespace DecimalMachine.Text

/-- At least `width` characters, the text at the right. -/
def padLeft (width : Nat) (s : List Char) : List Char := s.leftpad width ' '

/-- At least `width` characters, the text at the left. -/
def padRight (width : Nat) (s : List Char) : List Char := s.rightpad width ' '

def blanks (n : Nat) : List Char := List.replicate n ' '

/-- The digits of `n`, with zeros in front up to `width` of them. -/
def zeroPad (width n : Nat) : List Char := (Nat.toDigits 10 n).leftpad width '0'

theorem zeroPad_length (width n : Nat) :
    (zeroPad width n).length = max width (Nat.toDigits 10 n).length := by
  simp [zeroPad, List.leftpad]; omega

/-- The number `n` in at least `width` characters, a minus sign among them. -/
def zeroPadInt (width : Nat) (n : Int) : List Char :=
  if n < 0 then '-' :: zeroPad (width - 1) n.natAbs else zeroPad width n.natAbs

/-- The number `n` with its sign, plus or minus, before at least `width` digits. -/
def signed (width : Nat) (n : Int) : List Char :=
  (if n < 0 then '-' else '+') :: zeroPad width n.natAbs

/-- The number in its shortest form. -/
def int (n : Int) : List Char := zeroPadInt 0 n

end DecimalMachine.Text
