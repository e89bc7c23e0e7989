import DecimalMachine.Proofs.TextCuts
import DecimalMachine.Source.Line
/-
  Reading lines: what a line of source says of its text. Names, operands and numerals are cut from
  the line (`Declaration.Cut`, `operand_isInfix`), so that a text without long runs of digits has no
  numeral that is too long. Then the only line that cannot be read is a colon with no name before it
  (`readLine_of_not_nameless`).
-/
namespace DecimalMachine

namespace Text

/-! ## Runs of digits -/

/-- No run of digits is longer than `n`. -/
def DigitRuns (n : Nat) (s : List Char) : Prop :=
  ∀ r, r <:+: s → r.all Char.isDigit = true → r.length ≤ n

theorem DigitRuns.cut {n : Nat} {s t : List Char} (h : DigitRuns n s) (ht : t <:+: s) :
    DigitRuns n t := fun r hr => h r (hr.trans ht)

theorem digitRuns_of_length {n : Nat} {s : List Char} (h : s.length ≤ n) : DigitRuns n s :=
  fun _ hr _ => Nat.le_trans hr.length_le h

theorem splitSign_isSuffix (s : List Char) : (splitSign s).2 <:+ s := by
  unfold splitSign
  split
  · exact List.suffix_cons _ _
  · exact List.suffix_cons _ _
  · exact List.suffix_rfl

theorem digit_lt_ten {c : Char} (h : c.isDigit = true) : c.toNat - '0'.toNat < 10 := by
  simp only [Char.isDigit, Bool.and_eq_true, decide_eq_true_eq, ge_iff_le,
    UInt32.le_iff_toNat_le] at h
  have hc : 48 ≤ c.toNat ∧ c.toNat ≤ 57 := h
  show c.toNat - 48 < 10
  omega

theorem ofDigitChars_lt {s : List Char} (h : s.all Char.isDigit = true) (k : Nat) :
    Nat.ofDigitChars 10 s k < (k + 1) * 10 ^ s.length := by
  induction s generalizing k with
  | nil => simp [Nat.ofDigitChars]
  | cons c r ih =>
    obtain ⟨hc, hr⟩ := Bool.and_eq_true_iff.1 h
    have hdigit := digit_lt_ten hc
    rw [Nat.ofDigitChars_cons]
    calc Nat.ofDigitChars 10 r (10 * k + (c.toNat - '0'.toNat))
        < (10 * k + (c.toNat - '0'.toNat) + 1) * 10 ^ r.length := ih hr _
      _ ≤ (k + 1) * 10 * 10 ^ r.length := Nat.mul_le_mul_right _ (by omega)
      _ = (k + 1) * 10 ^ (c :: r).length := by
        rw [List.length_cons, Nat.pow_succ', Nat.mul_assoc]

/-- A run of digits that is not too long has a number of no more digits. -/
theorem natOfDigits_of_digitRuns {n : Nat} {s : List Char} (hs : isDigits s = true)
    (h : DigitRuns n s) (hn : n ≤ maxDigits) : ∃ k, natOfDigits s = .ok k ∧ k < 10 ^ n := by
  have hall : s.all Char.isDigit = true := (Bool.and_eq_true_iff.1 hs).2
  have hlen : s.length ≤ n := h s List.infix_rfl hall
  refine ⟨Nat.ofDigitChars 10 s 0, if_pos (Nat.le_trans hlen hn), ?_⟩
  calc Nat.ofDigitChars 10 s 0 < (0 + 1) * 10 ^ s.length := ofDigitChars_lt hall 0
    _ = 10 ^ s.length := by rw [Nat.zero_add, Nat.one_mul]
    _ ≤ 10 ^ n := Nat.pow_le_pow_right (by decide) hlen

theorem intOfNumeral_of_digitRuns {s : List Char} (hs : isNumeral s = true)
    (h : DigitRuns maxDigits s) : ∃ n, intOfNumeral s = .ok n := by
  obtain ⟨k, hk, -⟩ :=
    natOfDigits_of_digitRuns hs (h.cut (splitSign_isSuffix s).isInfix) (Nat.le_refl _)
  unfold intOfNumeral
  rw [hk]
  exact ⟨_, rfl⟩

end Text

namespace Source

/-! ## Comments -/

theorem beforeComment_isPrefix (s : List Char) : beforeComment s <+: s := by
  fun_induction beforeComment s with
  | case1 r => exact List.nil_prefix
  | case2 c r h ih => exact (List.prefix_cons_inj c).2 ih
  | case3 => exact List.prefix_rfl

theorem stripComment_isInfix (s : List Char) : stripComment s <:+: s :=
  (Text.trim_isInfix _).trans (beforeComment_isPrefix s).isInfix

/-! ## Declarations -/

namespace Declaration

def name : Declaration → List Char
  | assigned name _ | paired name _ | bare name => name

def numeral? : Declaration → Option (List Char)
  | assigned _ numeral | paired _ numeral => some numeral
  | bare _ => none

/-- The declaration is cut from a text. -/
structure Cut (d : Declaration) (s : List Char) : Prop where
  name : isName d.name = true
  numeral : ∀ v ∈ d.numeral?, Text.isNumeral v = true ∧ v <:+: s

end Declaration

theorem cut_of_declaration? {s : List Char} {d : Declaration} (h : declaration? s = some d) :
    d.Cut s := by
  have hrest : (splitName s).2 <:+: s := (List.dropWhile_suffix isNameRest).isInfix
  unfold declaration? at h
  dsimp only at h
  split at h
  · cases h
  · rename_i hname
    have hname : isName (splitName s).1 = true := by simpa using hname
    have htrim := (Text.trimLeft_isInfix (splitName s).2).trans hrest
    split at h
    · split at h
      · obtain rfl := Option.some.inj h
        exact ⟨hname, nofun⟩
      · cases h
    · rename_i value heq
      rw [heq] at htrim
      split at h
      · rename_i hv
        obtain rfl := Option.some.inj h
        refine ⟨hname, fun v hmem => ?_⟩
        obtain rfl := Option.some.inj hmem
        have hvalue : value <:+: s := (List.suffix_cons '=' value).isInfix.trans htrim
        exact ⟨hv, (Text.trimLeft_isInfix value).trans hvalue⟩
      · cases h
    · split at h
      · rename_i hv
        obtain rfl := Option.some.inj h
        refine ⟨hname, fun v hmem => ?_⟩
        obtain rfl := Option.some.inj hmem
        exact ⟨(Bool.and_eq_true_iff.1 hv).2, htrim⟩
      · cases h

/-- The value that a declaration gives its variable. -/
def Declaration.value (d : Declaration) : Except DigitLimit Int :=
  match d.numeral? with
  | some v => Text.intOfNumeral v
  | none => .ok 0

theorem statementOfDeclaration_eq (d : Declaration) :
    statementOfDeclaration d = d.value.map (.variable (String.ofList d.name)) := by
  cases d <;> rfl

theorem Declaration.Cut.value {d : Declaration} {s : List Char} (h : d.Cut s)
    (hs : Text.DigitRuns maxDigits s) : ∃ n, d.value = .ok n := by
  unfold Declaration.value
  cases hv : d.numeral? with
  | none => exact ⟨0, rfl⟩
  | some v =>
    obtain ⟨hnum, hcut⟩ := h.numeral v hv
    exact Text.intOfNumeral_of_digitRuns hnum (hs.cut hcut)

/-! ## Statements -/

/-- What a text can say. -/
inductive Says (s : List Char) : Option Statement → Prop
  | nameless (hc : s.getLast? = some ':') (hn : Text.trim s.dropLast = []) : Says s none
  | defines (hc : s.getLast? = some ':') (hn : Text.trim s.dropLast ≠ []) :
      Says s (some (.label (String.ofList (Text.trim s.dropLast))))
  | declares {d : Declaration} {n : Int} (hd : d.Cut s) (hn : d.value = .ok n) :
      Says s (some (.variable (String.ofList d.name) n))
  | operates : Says s (some (statementOfWords (Text.words s)))

theorem says_of_statement {s : List Char} {o : Option Statement} (h : statement s = .ok o) :
    Says s o := by
  unfold statement at h
  split at h
  · rename_i hc
    dsimp only at h
    cases hn : (Text.trim s.dropLast).isEmpty with
    | true =>
      rw [hn, if_pos rfl] at h
      obtain rfl := Except.ok.inj h
      exact .nameless hc (List.isEmpty_iff.1 hn)
    | false =>
      rw [hn, if_neg Bool.false_ne_true] at h
      obtain rfl := Except.ok.inj h
      exact .defines hc (List.isEmpty_eq_false_iff.1 hn)
  · split at h
    · rename_i d hd
      have hcut := cut_of_declaration? (Option.filter_eq_some_iff.1 hd).1
      rw [statementOfDeclaration_eq] at h
      cases hn : d.value with
      | error e => rw [hn] at h; cases h
      | ok n =>
        rw [hn] at h
        obtain rfl := Except.ok.inj h
        exact .declares hcut hn
    · obtain rfl := Except.ok.inj h
      exact .operates

/-- A text says something if it has no number that is too long. -/
theorem statement_eq_ok {s : List Char} (h : Text.DigitRuns maxDigits s) :
    ∃ o, statement s = .ok o := by
  unfold statement
  split
  · exact ⟨_, rfl⟩
  · split
    · rename_i d hd
      have hcut := cut_of_declaration? (Option.filter_eq_some_iff.1 hd).1
      obtain ⟨n, hn⟩ := hcut.value h
      rw [statementOfDeclaration_eq, hn]
      exact ⟨_, rfl⟩
    · exact ⟨_, rfl⟩

theorem toNat_of_isNameRest {c : Char} (h : isNameRest c = true) :
    48 ≤ c.toNat ∧ c.toNat ≤ 122 := by
  have hrest : ((decide (c.val ≥ 'A'.val ∧ c.val ≤ 'Z'.val) ||
      (decide (c.val ≥ 'a'.val) && decide (c.val ≤ 'z'.val))) ||
      (decide (c.val ≥ '0'.val) && decide (c.val ≤ '9'.val)) || c == '_') = true := h
  simp only [Bool.or_eq_true, Bool.and_eq_true, decide_eq_true_eq, ge_iff_le,
    UInt32.le_iff_toNat_le, beq_iff_eq] at hrest
  have hn : ((65 ≤ c.toNat ∧ c.toNat ≤ 90 ∨ 97 ≤ c.toNat ∧ c.toNat ≤ 122) ∨
      48 ≤ c.toNat ∧ c.toNat ≤ 57) ∨ c = '_' := hrest
  rcases hn with hn | rfl
  · omega
  · decide

theorem not_blank_of_isNameRest {c : Char} (h : isNameRest c = true) : Text.isBlank c = false := by
  have hc := toNat_of_isNameRest h
  simp only [Text.isBlank, Bool.or_eq_false_iff, Bool.and_eq_false_iff, decide_eq_false_iff_not,
    beq_eq_false_iff_ne]
  omega

theorem isNameRest_of_isNameStart {c : Char} (h : isNameStart c = true) : isNameRest c = true := by
  unfold isNameStart at h
  unfold isNameRest Char.isAlphanum
  rcases Bool.or_eq_true_iff.1 h with h | h <;> simp [h]

/-- Names are not empty, and there is no blank in them. -/
theorem of_isName {s : List Char} (h : isName s = true) :
    s ≠ [] ∧ s.all isNameRest = true ∧ ∀ c ∈ s, Text.isBlank c = false := by
  cases s with
  | nil => cases h
  | cons c r =>
    obtain ⟨hc, hr⟩ := Bool.and_eq_true_iff.1 h
    have hall : (c :: r).all isNameRest = true :=
      Bool.and_eq_true_iff.2 ⟨isNameRest_of_isNameStart hc, hr⟩
    exact ⟨List.cons_ne_nil c r, hall,
      fun d hd => not_blank_of_isNameRest (List.all_eq_true.1 hall d hd)⟩

theorem isName_of_says {s : List Char} {x : String} {n : Int}
    (h : Says s (some (.variable x n))) : isName x.toList = true := by
  generalize ho : some (Statement.variable x n) = o at h
  cases h with
  | declares hd hn =>
    cases ho
    rw [String.toList_ofList]
    exact hd.name
  | operates =>
    unfold statementOfWords at ho
    split at ho <;> cases ho
  | _ => cases ho

/-- Only a colon has no name before it. -/
theorem statement_eq_none_iff {s : List Char} (ht : Text.Trimmed s) :
    statement s = .ok none ↔ s = [':'] := by
  constructor
  · intro h
    generalize ho : (none : Option Statement) = o at h
    cases says_of_statement h with
    | nameless hc hn =>
      have hs : s = s.dropLast ++ [':'] := by
        obtain ⟨hne, hlast⟩ := List.mem_getLast?_eq_getLast hc
        rw [hlast, List.dropLast_append_getLast hne]
      cases hd : s.dropLast with
      | nil => rw [hs, hd]; rfl
      | cons c r =>
        have hblank : Text.isBlank c = true :=
          Text.trim_eq_nil.1 hn c (hd ▸ List.mem_cons_self)
        rw [ht.1 c (by rw [hs, hd]; rfl)] at hblank
        cases hblank
    | _ => cases ho
  · rintro rfl
    rfl

/-! ## Lines -/

/-- The line is a colon with no name before it, but for a comment and the blanks around it. -/
def isNameless (raw : List Char) : Bool := stripComment (Text.trim raw) == [':']

/-- What is wrong with such a line. -/
def namelessDiagnostic (file : String) (number : Int) (raw : List Char) : Diagnostic :=
  ⟨.namelessLabel, some ⟨file, number, Text.indent raw + 1⟩, some (Line.shown (String.ofList raw))⟩

theorem readLine_of_nameless {raw : List Char} (h : isNameless raw = true) (file : String)
    (number : Int) : readLine file number (String.ofList raw) =
      .error (.diagnostic (namelessDiagnostic file number raw)) := by
  have htext : stripComment (Text.trim raw) = [':'] := by simpa [isNameless] using h
  have hraw : Text.trim raw ≠ [] := by
    intro hnil
    rw [hnil] at htext
    cases htext
  unfold readLine
  dsimp only
  rw [String.toList_ofList, htext, List.isEmpty_eq_false_iff.2 hraw]
  rfl

/-- A line that is read has its place and its characters, and it is blank, a comment, or says what is
    left of it without its comment. -/
theorem of_readLine {file : String} {number : Int} {raw : String} {l : Line}
    (h : readLine file number raw = .ok l) :
    l.location = ⟨file, number, Text.indent raw.toList + 1⟩ ∧ l.raw = raw ∧
      (l.statement = .blank ∨ l.statement = .comment ∨
        l.text = String.ofList (stripComment (Text.trim raw.toList)) ∧
          stripComment (Text.trim raw.toList) ≠ [] ∧
            statement (stripComment (Text.trim raw.toList)) = .ok (some l.statement)) := by
  unfold readLine at h
  dsimp only at h
  split at h
  · obtain rfl := Except.ok.inj h
    exact ⟨rfl, rfl, .inl rfl⟩
  · split at h
    · obtain rfl := Except.ok.inj h
      exact ⟨rfl, rfl, .inr (.inl rfl)⟩
    · rename_i hne
      split at h
      · cases h
      · cases h
      · rename_i s hs
        obtain rfl := Except.ok.inj h
        exact ⟨rfl, rfl, .inr (.inr ⟨rfl, fun hnil => hne (List.isEmpty_iff.2 hnil), hs⟩)⟩

/-- A line that is read is blank, a comment, or has a text with a statement. -/
theorem statement_of_readLine {file : String} {number : Int} {raw : String} {l : Line}
    (h : readLine file number raw = .ok l) :
    l.statement = .blank ∨ l.statement = .comment ∨
      stripComment (Text.trim raw.toList) ≠ [] ∧
        statement (stripComment (Text.trim raw.toList)) = .ok (some l.statement) :=
  (of_readLine h).2.2.imp_right (Or.imp_right And.right)

theorem says_of_readLine {file : String} {number : Int} {raw : String} {l : Line}
    (h : readLine file number raw = .ok l) :
    l.statement = .blank ∨ l.statement = .comment ∨
      Says (stripComment (Text.trim raw.toList)) (some l.statement) :=
  (statement_of_readLine h).imp_right (Or.imp_right fun hs => says_of_statement hs.2)

theorem exists_of_readLines {file source : String} {l : Line}
    (h : .ok l ∈ readLines file source) :
    ∃ raw ∈ Text.lines source.toList, ∃ number, readLine file number (String.ofList raw) = .ok l := by
  obtain ⟨⟨raw, i⟩, hmem, hread⟩ := List.mem_map.1 h
  exact ⟨raw, List.fst_mem_of_mem_zipIdx hmem, _, hread⟩

end Source

end DecimalMachine
