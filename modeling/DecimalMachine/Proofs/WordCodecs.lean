import DecimalMachine.Proofs.LineGrammar
import DecimalMachine.Proofs.MemoryText
import DecimalMachine.Proofs.RawCells
/-
  Words as texts and as halves. What is read from a text is the numeral of the grammar that stands
  there, with or without blanks around it (`parse_eq_some_iff`), and the text that a number is written
  as is one, of four digits for a word (`toList_render_of_inRange`). The halves of a number make it up
  again and have its sign (`split_sign`), and those of an instruction word are the code and the operand
  that it was made from unless the operand was too wide (`split_join_iff`).
-/
namespace DecimalMachine

namespace Text

theorem countP_isDigit_of_isDigits {s : List Char} (h : isDigits s = true) :
    s.countP Char.isDigit = s.length :=
  List.countP_eq_length.2 fun c hc => List.all_eq_true.1 (Bool.and_eq_true_iff.1 h).2 c hc

/-- The digits of a numeral are all that follows its sign. -/
theorem countP_isDigit_of_isNumeral {s : List Char} (h : isNumeral s = true) :
    s.countP Char.isDigit = (splitSign s).2.length := by
  unfold isNumeral at h
  revert h
  fun_cases splitSign s with
  | case1 r => exact countP_isDigit_of_isDigits
  | case2 r => exact countP_isDigit_of_isDigits
  | case3 => exact countP_isDigit_of_isDigits

end Text

namespace Word

open Text

/-! ## Texts -/

theorem parse_eq_some_iff {t : String} {n : Int} :
    parse t = .ok (some n) ↔ ∃ s, Grammar.Stripped t.toList s ∧ Grammar.Integer s n ∧
      s.countP Char.isDigit ≤ maxDigits := by
  unfold parse readNumeral
  constructor
  · intro h
    split at h
    · rename_i hs
      cases hk : intOfNumeral (trim t.toList) with
      | error e => rw [hk] at h; cases h
      | ok k =>
        rw [hk] at h
        obtain rfl := Option.some.inj (Except.ok.inj h)
        obtain ⟨hlen, hvalue⟩ := intOfNumeral_eq_ok_iff.1 hk
        refine ⟨_, Grammar.stripped_iff.2 rfl, Grammar.integer_iff.2 ⟨hs, hvalue⟩, ?_⟩
        rw [countP_isDigit_of_isNumeral hs]
        exact hlen
    · cases h
  · rintro ⟨s, hs, hn, hlen⟩
    obtain ⟨hnumeral, hvalue⟩ := Grammar.integer_iff.1 hn
    rw [countP_isDigit_of_isNumeral hnumeral] at hlen
    rw [Grammar.stripped_iff.1 hs, if_pos hnumeral, intOfNumeral_eq_ok_iff.2 ⟨hlen, hvalue⟩]
    rfl

theorem numeric_iff {t : String} :
    Numeric t ↔ ∃ s n, Grammar.Stripped t.toList s ∧ Grammar.Integer s n := by
  constructor
  · intro h
    exact ⟨_, _, Grammar.stripped_iff.2 rfl, Grammar.integer_iff.2 ⟨h, rfl⟩⟩
  · rintro ⟨s, n, hs, hn⟩
    unfold Numeric
    rw [Grammar.stripped_iff.1 hs]
    exact (Grammar.integer_iff.1 hn).1

/-- A text that is no numeral is read as none; only a numeral can be too long. -/
theorem parse_eq_none_iff_not_integer {t : String} :
    parse t = .ok none ↔ ∀ s n, Grammar.Stripped t.toList s → ¬ Grammar.Integer s n := by
  rw [parse_eq_none_iff, numeric_iff]
  constructor
  · intro h s n hs hn
    exact h ⟨s, n, hs, hn⟩
  · rintro h ⟨s, n, hs, hn⟩
    exact h s n hs hn

/-- A number that is read is one that can be written, and it is read back from what is written. -/
theorem parse_render_of_parse {t : String} {n : Int} (h : parse t = .ok (some n)) :
    parse (render n) = .ok (some n) := parse_render_of_length (length_toDigits_of_parse h)

/-- The text of a word is four digits, with a minus sign in front of them if it is negative. -/
theorem toList_render_of_inRange {n : Int} (h : inRange n = true) :
    ∃ ds : List Char, ds.length = 4 ∧ (∀ c ∈ ds, Grammar.Digit c) ∧
      (render n).toList = if n < 0 then '-' :: ds else ds := by
  refine ⟨zeroPad digits n.natAbs, ?_, fun c hc =>
    Grammar.digit_iff.2 (isDigit_of_mem_zeroPad hc), toList_render n⟩
  have hle : (zeroPad digits n.natAbs).length ≤ digits :=
    length_zeroPad_of_inRange h (Nat.le_refl _)
  have hge : digits ≤ (zeroPad digits n.natAbs).length := by
    rw [zeroPad_length]
    exact Nat.le_max_left _ _
  exact Nat.le_antisymm hle hge

/-! ## Halves -/

/-- A half that is not zero has the sign of the number. -/
theorem split_sign (w : Int) :
    ((split w).1 = 0 ∨ (split w).1.sign = w.sign) ∧
      ((split w).2 = 0 ∨ (split w).2.sign = w.sign) := by
  refine ⟨?_, tmod_sign w 100⟩
  unfold split
  by_cases hw : w.natAbs < 100
  · refine .inl (Int.natAbs_eq_zero.1 ?_)
    rw [Int.natAbs_tdiv]
    exact Nat.div_eq_of_lt hw
  · refine .inr ((Int.sign_tdiv w 100).trans ?_)
    rw [if_neg (by exact hw)]
    exact Int.mul_one _

/-- Code and operand are found again in their word exactly if the operand has two digits. -/
theorem split_join_iff {code n : Int} (hc : 0 ≤ code) (hn : 0 ≤ n) :
    split (join code n) = (code, n) ↔ n ≤ 99 := by
  constructor
  · intro h
    have hbound := (split_operand_bounds (join code n)).2
    rw [h] at hbound
    exact Int.le_of_lt_add_one hbound
  · exact split_join hc hn

/-- Texts, numbers and halves of words correspond. A number that is not too long is read back from its
    text, which is four digits for a word. What is read is a numeral with or without blanks around it,
    anything else is none, and a number that was read is written so that it is read again. The halves
    of a number make it up, the lower one has at most two digits, and both have its sign; code and
    operand are the halves of their word exactly if the operand has at most two digits. -/
theorem exact_codecs :
    (∀ n : Int, (Nat.toDigits 10 n.natAbs).length ≤ maxDigits →
        parse (render n) = .ok (some n)) ∧
      (∀ n : Int, inRange n = true → ∃ ds : List Char, ds.length = 4 ∧
        (∀ c ∈ ds, Grammar.Digit c) ∧ (render n).toList = if n < 0 then '-' :: ds else ds) ∧
      (∀ (t : String) (n : Int), parse t = .ok (some n) ↔
        ∃ s, Grammar.Stripped t.toList s ∧ Grammar.Integer s n ∧
          s.countP Char.isDigit ≤ maxDigits) ∧
      (∀ t : String, parse t = .ok none ↔
        ∀ s n, Grammar.Stripped t.toList s → ¬ Grammar.Integer s n) ∧
      (∀ (t : String) (n : Int), parse t = .ok (some n) → parse (render n) = .ok (some n)) ∧
      (∀ w : Int, join (split w).1 (split w).2 = w ∧ (split w).2.natAbs ≤ 99 ∧
        ((split w).1 = 0 ∨ (split w).1.sign = w.sign) ∧
        ((split w).2 = 0 ∨ (split w).2.sign = w.sign)) ∧
      ∀ code n : Int, 0 ≤ code → 0 ≤ n → (split (join code n) = (code, n) ↔ n ≤ 99) := by
  refine ⟨fun _ => parse_render_of_length, fun _ => toList_render_of_inRange,
    fun _ _ => parse_eq_some_iff, fun _ => parse_eq_none_iff_not_integer,
    fun _ _ => parse_render_of_parse,
    fun w => ⟨join_split w, ?_, split_sign w⟩, fun _ _ => split_join_iff⟩
  have hbounds := split_operand_bounds w
  omega

/-- A negative word, a numeral with blanks and zeros around it, and an operand that is too wide. -/
theorem exact_codecs_carried :
    (Nat.toDigits 10 (-42 : Int).natAbs).length ≤ maxDigits ∧ inRange (-42) = true ∧
      parse (render (-42)) = .ok (some (-42)) ∧
      (∃ ds : List Char, ds.length = 4 ∧ (render (-42)).toList = '-' :: ds) ∧
      parse "\t+0017 " = .ok (some 17) ∧ parse (render 17) = .ok (some 17) ∧
      parse "1 7" = .ok none ∧
      join (split (-4201)).1 (split (-4201)).2 = -4201 ∧
      (0 : Int) ≤ 20 ∧ (0 : Int) ≤ 100 ∧ split (join 20 100) ≠ (20, 100) := by
  obtain ⟨hround, hdigits, hread, hnone, hback, hhalves, hjoin⟩ := exact_codecs
  obtain ⟨ds, hlen, -, htext⟩ := hdigits (-42) rfl
  have hplus : parse "\t+0017 " = .ok (some 17) :=
    (hread _ _).2 ⟨"+0017".toList, Grammar.stripped_iff.2 rfl,
      Grammar.integer_iff.2 ⟨rfl, rfl⟩, by decide⟩
  have hpair : parse "1 7" = .ok none := by
    refine (hnone _).2 fun s n hs hn => ?_
    have hnumeral := (Grammar.integer_iff.1 hn).1
    rw [← Grammar.stripped_iff.1 hs] at hnumeral
    exact absurd hnumeral (by decide)
  exact ⟨by decide, rfl, hround (-42) (by decide), ⟨ds, hlen, htext⟩, hplus, hback _ _ hplus, hpair,
    (hhalves (-4201)).1, by decide, by decide,
    fun h => absurd ((hjoin 20 100 (by decide) (by decide)).1 h) (by decide)⟩

end Word

end DecimalMachine
