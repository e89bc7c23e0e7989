/-
  Lines: cutting a text at its line breaks, and reading every way to end a line as one.
-/
namespace DecimalMachine.Text

/-- A character that ends a line: line feed, vertical tab, form feed, carriage return, the
    separators `1c`–`1e`, next line, and the line and paragraph separators. -/
def isLineBreak (c : Char) : Bool :=
  let n := c.toNat
  (10 ≤ n && n ≤ 13) || (28 ≤ n && n ≤ 30) || n == 0x85 || n == 0x2028 || n == 0x2029

/-- The lines of a text whose first characters, last one first, are `l`. -/
def linesFrom (l : List Char) : List Char → List (List Char)
  | [] => if l.isEmpty then [] else [l.reverse]
  | '\r' :: '\n' :: r => l.reverse :: linesFrom [] r
  | c :: r => if isLineBreak c then l.reverse :: linesFrom [] r else linesFrom (c :: l) r

/-- The lines without their ends. A break at the very end starts no further line, and a
    carriage return with a line feed behind it is one break. -/
def lines (s : List Char) : List (List Char) := linesFrom [] s

theorem lines_nil : lines [] = [] := rfl

/-- A carriage return, with or without a line feed behind it, read as a line feed. -/
def normalizeBreaks : List Char → List Char
  | [] => []
  | '\r' :: '\n' :: r => '\n' :: normalizeBreaks r
  | c :: r => (if c = '\r' then '\n' else c) :: normalizeBreaks r

theorem normalizeBreaks_ne_cr (s : List Char) : ∀ c ∈ normalizeBreaks s, c ≠ '\r' := by
  fun_induction normalizeBreaks s with
  | case1 => simp
  | case2 r ih => simpa using ih
  | case3 c r _ ih =>
    intro d hd
    rcases List.mem_cons.1 hd with rfl | hd
    · split <;> simp_all
    · exact ih d hd

def normalizeBreaksIn (s : String) : String := String.ofList (normalizeBreaks s.toList)

end DecimalMachine.Text
