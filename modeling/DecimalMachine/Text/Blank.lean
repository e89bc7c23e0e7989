/-
  Blank characters: which characters count as white space, trimming them from the ends of a
  text, and cutting a text into the words between them.
-/
namespace DecimalMachine.Text

/-- White space: the blanks of Unicode and the control characters `09`–`0d` and `1c`–`1f`. -/
def isBlank (c : Char) : Bool :=
  let n := c.toNat
  (9 ≤ n && n ≤ 13) || (28 ≤ n && n ≤ 32) || n == 0x85 || n == 0xa0 || n == 0x1680 ||
    (0x2000 ≤ n && n ≤ 0x200a) || n == 0x2028 || n == 0x2029 || n == 0x202f || n == 0x205f ||
    n == 0x3000

theorem isBlank_of_isWhitespace {c : Char} (h : c.isWhitespace = true) : isBlank c = true := by
  simp only [Char.isWhitespace, Bool.or_eq_true, decide_eq_true_eq] at h
  rcases h with ((rfl | rfl) | rfl) | rfl <;> decide

def trimLeft (s : List Char) : List Char := s.dropWhile isBlank

def trimRight (s : List Char) : List Char := (s.reverse.dropWhile isBlank).reverse

/-- The text without the blanks at either end. -/
def trim (s : List Char) : List Char := trimRight (trimLeft s)

/-- How many blanks stand in front of the first other character. -/
def indent (s : List Char) : Nat := (s.takeWhile isBlank).length

/-- The words of a text whose first letters, last one first, are `w`. -/
def wordsFrom (w : List Char) : List Char → List (List Char)
  | [] => if w.isEmpty then [] else [w.reverse]
  | c :: r =>
    if isBlank c then
      if w.isEmpty then wordsFrom [] r else w.reverse :: wordsFrom [] r
    else wordsFrom (c :: w) r

/-- The longest runs of characters that are not blank, in order. -/
def words (s : List Char) : List (List Char) := wordsFrom [] s

theorem words_cons_blank {c : Char} (h : isBlank c = true) (r : List Char) :
    words (c :: r) = words r := by
  simp [words, wordsFrom, h]

theorem ne_nil_of_mem_wordsFrom {w s x : List Char} (h : x ∈ wordsFrom w s) : x ≠ [] := by
  induction s generalizing w with
  | nil =>
    rw [wordsFrom] at h
    split at h <;> simp_all
  | cons c r ih =>
    rw [wordsFrom] at h
    split at h
    · split at h
      · exact ih h
      · rcases List.mem_cons.1 h with rfl | h
        · simp_all
        · exact ih h
    · exact ih h

/-- No word is empty. -/
theorem ne_nil_of_mem_words {s x : List Char} (h : x ∈ words s) : x ≠ [] :=
  ne_nil_of_mem_wordsFrom h

end DecimalMachine.Text
