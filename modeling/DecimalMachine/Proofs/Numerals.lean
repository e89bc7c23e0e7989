import Mathlib.Algebra.Group.Nat.Defs
import DecimalMachine.Word
/-
  Numerals: reading a number from the text that it is written as. Neither digits nor the sign are
  blank, so nothing is trimmed from such a text, and the zeros in front of the digits do not count
  (`parse_render`). A word of four digits is nowhere near the limit on digits.
-/
namespace DecimalMachine

namespace Text

/-! ## Blanks -/

theorem isBlank_of_isDigit {c : Char} (h : c.isDigit = true) : isBlank c = false := by
  simp only [Char.isDigit, Bool.and_eq_true, decide_eq_true_eq, ge_iff_le,
    UInt32.le_iff_toNat_le] at h
  have hc : 48 ≤ c.toNat ∧ c.toNat ≤ 57 := h
  simp only [isBlank, Bool.or_eq_false_iff, Bool.and_eq_false_iff, decide_eq_false_iff_not,
    beq_eq_false_iff_ne]
  omega

theorem dropWhile_isBlank {s : List Char} (h : ∀ c ∈ s, isBlank c = false) :
    s.dropWhile isBlank = s := by
  cases s with
  | nil => rfl
  | cons c r =>
    rw [List.dropWhile_cons, h c List.mem_cons_self]
    rfl

/-- A text without blanks is not trimmed. -/
theorem trim_of_not_blank {s : List Char} (h : ∀ c ∈ s, isBlank c = false) : trim s = s := by
  have hr : ∀ c ∈ s.reverse, isBlank c = false := fun c hc => h c (List.mem_reverse.1 hc)
  unfold trim trimRight trimLeft
  rw [dropWhile_isBlank h, dropWhile_isBlank hr, List.reverse_reverse]

/-! ## Digits -/

theorem isDigit_of_mem_zeroPad {width n : Nat} {c : Char} (h : c ∈ zeroPad width n) :
    c.isDigit = true := by
  unfold zeroPad List.leftpad at h
  rcases List.mem_append.1 h with h | h
  · rw [List.eq_of_mem_replicate h]
    decide
  · exact Nat.isDigit_of_mem_toDigits (by decide) (by decide) h

theorem not_blank_of_mem_zeroPad {width n : Nat} {c : Char} (h : c ∈ zeroPad width n) :
    isBlank c = false := isBlank_of_isDigit (isDigit_of_mem_zeroPad h)

theorem zeroPad_ne_nil (width n : Nat) : zeroPad width n ≠ [] :=
  List.append_ne_nil_of_right_ne_nil _ Nat.toDigits_ne_nil

theorem isDigits_zeroPad (width n : Nat) : isDigits (zeroPad width n) = true := by
  unfold isDigits
  rw [List.isEmpty_eq_false_iff.2 (zeroPad_ne_nil width n)]
  exact List.all_eq_true.2 fun c hc => isDigit_of_mem_zeroPad hc

theorem ofDigitChars_zeroPad (width n : Nat) : Nat.ofDigitChars 10 (zeroPad width n) 0 = n := by
  unfold zeroPad List.leftpad
  rw [Nat.ofDigitChars_append, Nat.ofDigitChars_replicate_zero, Nat.mul_zero,
    Nat.ofDigitChars_ten_toDigits]

theorem natOfDigits_zeroPad {width n : Nat} (h : (zeroPad width n).length ≤ maxDigits) :
    natOfDigits (zeroPad width n) = .ok n := by
  unfold natOfDigits
  rw [if_pos h, ofDigitChars_zeroPad]

theorem splitSign_of_isDigits {s : List Char} (h : isDigits s = true) :
    splitSign s = (false, s) := by
  unfold splitSign
  split
  · exact absurd h (by simp [isDigits])
  · exact absurd h (by simp [isDigits])
  · rfl

/-! ## Numerals with a sign -/

/-- The digits of a number, at least `width` of them, after a minus sign if it is negative. -/
def padded (width : Nat) (n : Int) : List Char :=
  if n < 0 then '-' :: zeroPad width n.natAbs else zeroPad width n.natAbs

theorem splitSign_padded (width : Nat) (n : Int) :
    splitSign (padded width n) = (decide (n < 0), zeroPad width n.natAbs) := by
  unfold padded
  by_cases h : n < 0
  · rw [if_pos h, decide_eq_true h]
    rfl
  · rw [if_neg h, decide_eq_false h]
    exact splitSign_of_isDigits (isDigits_zeroPad _ _)

theorem minus_or_digit_of_mem_padded {width : Nat} {n : Int} {c : Char}
    (h : c ∈ padded width n) : c = '-' ∨ c.isDigit = true := by
  unfold padded at h
  split at h
  · exact (List.mem_cons.1 h).imp_right isDigit_of_mem_zeroPad
  · exact .inr (isDigit_of_mem_zeroPad h)

theorem not_blank_of_mem_padded {width : Nat} {n : Int} {c : Char} (h : c ∈ padded width n) :
    isBlank c = false := by
  rcases minus_or_digit_of_mem_padded h with rfl | h
  · decide
  · exact isBlank_of_isDigit h

theorem isNumeral_padded (width : Nat) (n : Int) : isNumeral (padded width n) = true := by
  unfold isNumeral
  rw [splitSign_padded]
  exact isDigits_zeroPad _ _

theorem padded_ne_nil (width : Nat) (n : Int) : padded width n ≠ [] := by
  intro h
  have hnum := isNumeral_padded width n
  rw [h] at hnum
  cases hnum

theorem applySign_natAbs (n : Int) : applySign (decide (n < 0)) n.natAbs = n := by
  unfold applySign
  by_cases h : n < 0
  · rw [decide_eq_true h, if_pos rfl]
    omega
  · rw [decide_eq_false h, if_neg Bool.false_ne_true]
    omega

theorem intOfNumeral_padded {width : Nat} {n : Int}
    (h : (zeroPad width n.natAbs).length ≤ maxDigits) : intOfNumeral (padded width n) = .ok n := by
  unfold intOfNumeral
  rw [splitSign_padded, natOfDigits_zeroPad h]
  exact congrArg Except.ok (applySign_natAbs n)

/-- A number is read from its digits, however many zeros stand in front of them. -/
theorem readNumeral_padded {width : Nat} {n : Int}
    (h : (zeroPad width n.natAbs).length ≤ maxDigits) :
    readNumeral (padded width n) = .ok (some n) := by
  unfold readNumeral
  rw [trim_of_not_blank fun _ => not_blank_of_mem_padded, if_pos (isNumeral_padded width n),
    intOfNumeral_padded h]
  rfl

/-- The shortest form of a number. -/
theorem toList_toString (n : Int) : (toString n).toList = padded 0 n := by
  have hzero : ∀ k : Nat, zeroPad 0 k = Nat.toDigits 10 k := fun k => by
    unfold zeroPad List.leftpad
    rw [Nat.zero_sub]
    rfl
  unfold padded
  cases n with
  | ofNat n =>
    show (Nat.repr n).toList = _
    simp [Nat.repr_eq_ofList_toDigits, hzero]
  | negSucc n =>
    show ("-" ++ Nat.repr (n + 1)).toList = _
    simp [Nat.repr_eq_ofList_toDigits, Int.negSucc_lt_zero, hzero]

theorem isWritable_iff {n : Int} : IsWritable n ↔ n.natAbs < 10 ^ maxDigits :=
  Nat.length_toDigits_le_iff (by decide) (by decide)

theorem isWritable_of_lt {n : Int} {k : Nat} (hk : k ≤ maxDigits) (h : n.natAbs < 10 ^ k) :
    IsWritable n :=
  isWritable_iff.2 (Nat.lt_of_lt_of_le h (Nat.pow_le_pow_right (by decide) hk))

/-- A number below the limit on digits can be written. -/
theorem writeNumeral_of_lt {n : Int} {k : Nat} (hk : k ≤ maxDigits) (h : n.natAbs < 10 ^ k) :
    writeNumeral n = .ok (int n) := writeNumeral_of_writable (isWritable_of_lt hk h)

end Text

namespace Word

open Text

theorem toList_render (n : Int) : (render n).toList = padded digits n := by
  unfold render
  rw [String.toList_ofList]
  rfl

/-- A number is read from the text that it is written as. -/
theorem parse_render {n : Int} (h : (zeroPad digits n.natAbs).length ≤ maxDigits) :
    parse (render n) = .ok (some n) := by
  unfold parse
  rw [toList_render]
  exact readNumeral_padded h

theorem parse_render_of_length {n : Int}
    (h : (Nat.toDigits 10 n.natAbs).length ≤ maxDigits) : parse (render n) = .ok (some n) := by
  refine parse_render ?_
  rw [zeroPad_length]
  exact Nat.max_le.2 ⟨by decide, h⟩

theorem natAbs_le_of_inRange {n : Int} (h : inRange n = true) : n.natAbs ≤ 9999 := by
  have hr := inRange_iff.1 h
  omega

theorem isWritable_of_inRange {n : Int} (h : inRange n = true) : IsWritable n :=
  isWritable_of_lt (k := digits) (by decide) (Nat.lt_succ_of_le (natAbs_le_of_inRange h))

theorem writeNumeral_of_inRange {n : Int} (h : inRange n = true) :
    writeNumeral n = .ok (int n) := writeNumeral_of_writable (isWritable_of_inRange h)

/-- Words have at most four digits. -/
theorem length_zeroPad_of_inRange {n : Int} (h : inRange n = true) {width : Nat}
    (hw : width ≤ digits) : (zeroPad width n.natAbs).length ≤ digits := by
  have hlen : (Nat.toDigits 10 n.natAbs).length ≤ 4 :=
    (Nat.length_toDigits_le_iff (by decide) (by decide)).2
      (Nat.lt_succ_of_le (natAbs_le_of_inRange h))
  rw [zeroPad_length]
  exact Nat.max_le.2 ⟨hw, hlen⟩

theorem intOfNumeral_padded_of_inRange {n : Int} (h : inRange n = true) {width : Nat}
    (hw : width ≤ digits) : intOfNumeral (padded width n) = .ok n :=
  intOfNumeral_padded (Nat.le_trans (length_zeroPad_of_inRange h hw) (by decide))

theorem parse_render_of_inRange {n : Int} (h : inRange n = true) :
    parse (render n) = .ok (some n) :=
  parse_render (Nat.le_trans (length_zeroPad_of_inRange h (Nat.le_refl _)) (by decide))

end Word

end DecimalMachine
