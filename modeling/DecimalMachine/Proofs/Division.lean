import DecimalMachine.Proofs.Ranges
/-
  Division and remainder. The quotient of two numbers is the quotient of their magnitudes with a sign
  in front, and the remainder is what the product of divisor and quotient leaves (`quotient`,
  `remainder`). There is one way to take a number apart so that the rest is smaller than the divisor
  and on the side of zero that the number is on, and it is this one (`truncates_iff`). Neither part is
  further from zero than the number. So division cannot leave the range of words, and the remainder,
  which the machine stores unchecked, cannot either (`truncated_division`).
-/
namespace DecimalMachine

namespace Word

/-! ## Quotients and remainders -/

/-- The quotient of the magnitudes, negative if only one of the numbers is. -/
def quotient (a b : Int) : Int :=
  let magnitude : Int := a.natAbs / b.natAbs
  if decide (a < 0) != decide (b < 0) then -magnitude else magnitude

/-- What the product of divisor and quotient leaves of the dividend. -/
def remainder (a b : Int) : Int := a - b * quotient a b

/-- The number `a` is `q` times `b` and a rest `r` that is smaller than `b`, whatever the signs, and
    on the side of zero that `a` is on. -/
structure Truncates (a b q r : Int) : Prop where
  sum : a = b * q + r
  small : r.natAbs < b.natAbs
  sign : r = 0 ∨ r.sign = a.sign

/-- The sign and the magnitude together are the quotient without its fraction. -/
theorem quotient_eq_tdiv (a b : Int) : quotient a b = a.tdiv b := by
  unfold quotient
  dsimp only
  rcases Int.lt_or_le a 0 with ha | ha <;> rcases Int.lt_or_le b 0 with hb | hb
  · have hmagnitude : (a.natAbs / b.natAbs : Int) = -a / -b := by
      rw [Int.ofNat_natAbs_of_nonpos (by omega), Int.ofNat_natAbs_of_nonpos (by omega)]
    rw [decide_eq_true ha, decide_eq_true hb, hmagnitude, ← Int.tdiv_eq_ediv_of_nonneg (by omega)]
    exact Int.neg_tdiv_neg a b
  · have hmagnitude : (a.natAbs / b.natAbs : Int) = -a / b := by
      rw [Int.ofNat_natAbs_of_nonpos (by omega), Int.natAbs_of_nonneg hb]
    rw [decide_eq_true ha, decide_eq_false (Int.not_lt.2 hb), hmagnitude,
      ← Int.tdiv_eq_ediv_of_nonneg (by omega), Int.neg_tdiv]
    exact Int.neg_neg _
  · have hmagnitude : (a.natAbs / b.natAbs : Int) = a / -b := by
      rw [Int.natAbs_of_nonneg ha, Int.ofNat_natAbs_of_nonpos (by omega)]
    rw [decide_eq_false (Int.not_lt.2 ha), decide_eq_true hb, hmagnitude,
      ← Int.tdiv_eq_ediv_of_nonneg ha, Int.tdiv_neg]
    exact Int.neg_neg _
  · have hmagnitude : (a.natAbs / b.natAbs : Int) = a / b := by
      rw [Int.natAbs_of_nonneg ha, Int.natAbs_of_nonneg hb]
    rw [decide_eq_false (Int.not_lt.2 ha), decide_eq_false (Int.not_lt.2 hb), hmagnitude,
      ← Int.tdiv_eq_ediv_of_nonneg ha]
    rfl

theorem remainder_eq_tmod (a b : Int) : remainder a b = a.tmod b := by
  unfold remainder
  rw [quotient_eq_tdiv, Int.tmod_def]

theorem natAbs_quotient_le (a b : Int) : (quotient a b).natAbs ≤ a.natAbs := by
  rw [quotient_eq_tdiv]
  exact Int.natAbs_tdiv_le_natAbs a b

theorem natAbs_remainder (a b : Int) : (remainder a b).natAbs = a.natAbs % b.natAbs := by
  rw [remainder_eq_tmod, Int.natAbs_tmod]

theorem natAbs_remainder_le (a b : Int) : (remainder a b).natAbs ≤ a.natAbs := by
  rw [natAbs_remainder]
  exact Nat.mod_le _ _

theorem truncates_quotient_remainder (a : Int) {b : Int} (hb : b ≠ 0) :
    Truncates a b (quotient a b) (remainder a b) where
  sum := by
    unfold remainder
    omega
  small := by
    rw [natAbs_remainder]
    exact Nat.mod_lt _ (Int.natAbs_pos.2 hb)
  sign := by
    rw [remainder_eq_tmod]
    exact tmod_sign a b

theorem Truncates.rest_nonneg {a b q r : Int} (h : Truncates a b q r) (ha : 0 ≤ a) : 0 ≤ r := by
  rcases h.sign with rfl | hsign
  · exact Int.le_refl 0
  · rw [← Int.sign_nonneg_iff, hsign]
    exact Int.sign_nonneg_iff.2 ha

theorem Truncates.rest_nonpos {a b q r : Int} (h : Truncates a b q r) (ha : a ≤ 0) : r ≤ 0 := by
  rcases h.sign with rfl | hsign
  · exact Int.le_refl 0
  · rw [← Int.sign_nonpos_iff, hsign]
    exact Int.sign_nonpos_iff.2 ha

/-- Two rests on one side of zero differ by less than the divisor, and by a multiple of it. -/
theorem Truncates.unique {a b q r q' r' : Int} (h : Truncates a b q r)
    (h' : Truncates a b q' r') : q = q' ∧ r = r' := by
  have hsides : (0 ≤ r ∧ 0 ≤ r') ∨ (r ≤ 0 ∧ r' ≤ 0) :=
    (Int.le_total 0 a).imp (fun ha => ⟨h.rest_nonneg ha, h'.rest_nonneg ha⟩)
      fun ha => ⟨h.rest_nonpos ha, h'.rest_nonpos ha⟩
  have hsum := h.sum
  have hsum' := h'.sum
  have hmultiple : b * (q - q') = r' - r := by
    rw [Int.mul_sub]
    omega
  have hclose : (r' - r).natAbs < b.natAbs := by
    have hsmall := h.small
    have hsmall' := h'.small
    omega
  have hrest : r' - r = 0 :=
    Int.eq_zero_of_dvd_of_natAbs_lt_natAbs ⟨q - q', hmultiple.symm⟩ hclose
  have hb : b ≠ 0 := by
    rintro rfl
    exact absurd h.small (Nat.not_lt_zero _)
  rw [hrest] at hmultiple
  have hq := (Int.mul_eq_zero.1 hmultiple).resolve_left hb
  omega

theorem truncates_iff {a b q r : Int} (hb : b ≠ 0) :
    Truncates a b q r ↔ q = quotient a b ∧ r = remainder a b := by
  constructor
  · intro h
    exact h.unique (truncates_quotient_remainder a hb)
  · rintro ⟨rfl, rfl⟩
    exact truncates_quotient_remainder a hb

theorem inRange_of_natAbs_le {a n : Int} (h : inRange a = true) (hn : n.natAbs ≤ a.natAbs) :
    inRange n = true := by
  have ha := natAbs_le_of_inRange h
  exact inRange_iff.2 ⟨by omega, by omega⟩

end Word

namespace Machine

/-! ## The machine -/

variable (m : Machine) (op : Opcode) {b : Int}

theorem divideBy_of_ne_zero (hb : b ≠ 0) :
    m.divideBy op b = m.setChecked op (Word.quotient m.regs.accumulator b) := by
  unfold divideBy
  rw [if_neg hb, Word.quotient_eq_tdiv]

theorem remainderBy_of_ne_zero (hb : b ≠ 0) :
    m.remainderBy op b = (m.setAccumulator (Word.remainder m.regs.accumulator b)).done := by
  unfold remainderBy
  rw [if_neg hb, Word.remainder_eq_tmod]

/-- The check of a quotient always succeeds. -/
theorem divideBy_of_inRange (ha : Word.inRange m.regs.accumulator = true) (hb : b ≠ 0) :
    m.divideBy op b = (m.setAccumulator (Word.quotient m.regs.accumulator b)).done := by
  rw [divideBy_of_ne_zero m op hb]
  exact if_pos (Word.inRange_of_natAbs_le ha (Word.natAbs_quotient_le _ b))

theorem divideBy_zero :
    m.divideBy op 0 = ((m.warn zeroDivisorMessage).setAccumulator 0).done := if_pos rfl

theorem remainderBy_zero : m.remainderBy op 0 = m.faultIn op .moduloByZero := if_pos rfl

/-- The quotient and the remainder are the only numbers that take the accumulator apart with the rest
    on its own side of zero, and neither is further from zero than the accumulator. The machine takes
    just these; so from an accumulator in range division never fails, and neither division nor
    remainder leaves the range, whatever the divisor is. -/
theorem truncated_division (a b : Int) :
    (b ≠ 0 →
      (∀ q r, Word.Truncates a b q r ↔ q = Word.quotient a b ∧ r = Word.remainder a b) ∧
        (Word.quotient a b).natAbs ≤ a.natAbs ∧ (Word.remainder a b).natAbs ≤ a.natAbs) ∧
      ∀ (m : Machine) (op : Opcode), m.regs.accumulator = a →
        (b ≠ 0 →
          m.divideBy op b = m.setChecked op (Word.quotient a b) ∧
            m.remainderBy op b = (m.setAccumulator (Word.remainder a b)).done) ∧
          (Word.inRange a = true →
            (m.divideBy op b).failure = none ∧
              Word.inRange (m.divideBy op b).machine.regs.accumulator = true ∧
              Word.inRange (m.remainderBy op b).machine.regs.accumulator = true) := by
  refine ⟨fun hb => ⟨fun q r => Word.truncates_iff hb, Word.natAbs_quotient_le a b,
    Word.natAbs_remainder_le a b⟩, ?_⟩
  rintro m op rfl
  refine ⟨fun hb => ⟨divideBy_of_ne_zero m op hb, remainderBy_of_ne_zero m op hb⟩, fun ha => ?_⟩
  by_cases hb : b = 0
  · subst hb
    rw [divideBy_zero, remainderBy_zero]
    refine ⟨rfl, rfl, ?_⟩
    unfold faultIn
    rw [fail_regs]
    exact ha
  · rw [divideBy_of_inRange m op ha hb, remainderBy_of_ne_zero m op hb]
    exact ⟨rfl, Word.inRange_of_natAbs_le ha (Word.natAbs_quotient_le _ b),
      Word.inRange_of_natAbs_le ha (Word.natAbs_remainder_le _ b)⟩

/-- Half of minus seven is minus three, and minus one is left. -/
theorem truncated_division_negative :
    let m := (new ⟨#[.num 3702], by decide⟩ []).setAccumulator (-7)
    m.regs.accumulator = -7 ∧ (2 : Int) ≠ 0 ∧ Word.inRange (-7) = true ∧
      (∀ q r, Word.Truncates (-7) 2 q r ↔ q = -3 ∧ r = -1) ∧
      m.divideBy .divideImm 2 = m.setChecked .divideImm (-3) ∧
      m.remainderBy .moduloImm 2 = (m.setAccumulator (-1)).done ∧
      (m.divideBy .divideImm 2).failure = none := by
  intro m
  obtain ⟨hunique, hmachine⟩ := truncated_division (-7) 2
  have htwo : (2 : Int) ≠ 0 := by decide
  obtain ⟨hquotient, -⟩ := (hmachine m .divideImm rfl).1 htwo
  obtain ⟨-, hremainder⟩ := (hmachine m .moduloImm rfl).1 htwo
  exact ⟨rfl, htwo, rfl, (hunique htwo).1, hquotient, hremainder,
    ((hmachine m .divideImm rfl).2 rfl).1⟩

end Machine

end DecimalMachine
