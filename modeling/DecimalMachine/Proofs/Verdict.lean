import Mathlib.Data.List.Perm.Subperm
import DecimalMachine.Proofs.Encodings
import DecimalMachine.Proofs.LineReading
/-
  The verdict of an assembly: there is a program exactly when nothing is wrong with any line, and
  otherwise the error reports what is wrong, line by line (`failures_findings`). A line that cannot be
  read keeps the others from being assembled. Declarations are reported before instructions, each of
  them at most once, and the report ends with the hundredth diagnostic.
-/
namespace DecimalMachine

namespace Word

theorem inRange_join_iff (op : Opcode) (n : Nat) :
    inRange (join op.code n) = !decide (greatest < join op.code n) := by
  have hcode := op.code_pos
  have hlow : -9999 ≤ join op.code n := by
    unfold join
    omega
  rw [Bool.eq_iff_iff, inRange_iff, Bool.not_eq_true', decide_eq_false_iff_not, Int.not_lt]
  exact and_iff_right hlow

/-- The word of an operand is at most one digit longer than the operand. -/
theorem writeNumeral_join (op : Opcode) {n k : Nat} (hn : n < 10 ^ k) (hk : 4 ≤ k)
    (hmax : k < maxDigits) :
    Text.writeNumeral (join op.code n) = .ok (Text.int (join op.code n)) := by
  refine Text.writeNumeral_of_lt (k := k + 1) hmax ?_
  have hcode : 0 < op.code ∧ op.code ≤ 43 := ⟨op.code_pos, op.code_le⟩
  have hpow : 10 ^ 4 ≤ 10 ^ k := Nat.pow_le_pow_right (by decide) hk
  unfold join
  rw [Nat.pow_succ]
  omega

end Word

namespace Source

/-! ## Lines that cannot be read -/

end Source

namespace Assembly

open Source

theorem length_eraseDups_le (xs : List String) : xs.eraseDups.length ≤ xs.length :=
  (List.subperm_of_subset (nodup_eraseDups xs) fun _ => List.mem_eraseDups.1).length_le

/-- The number of an operand cannot be read, or the word that it makes cannot be written. -/
inductive TooLong (lines : List Line) (op : Opcode) (x : String) (e : DigitLimit) : Prop
  | operand (hx : meaning lines x = .error e)
  | word {n : Nat} {res : Resolution} (hx : meaning lines x = .ok (n, res))
      (hw : Text.writeNumeral (Word.join op.code n) = .error e)

theorem not_tooLong {lines : List Line} {op : Opcode} {x : String} {n k : Nat} {res : Resolution}
    (hx : meaning lines x = .ok (n, res)) (hn : n < 10 ^ k) (hk : 4 ≤ k) (hmax : k < maxDigits)
    {e : DigitLimit} : ¬ TooLong lines op x e := by
  intro h
  cases h with
  | operand hx' => rw [hx] at hx'; cases hx'
  | word hx' hw =>
    rw [hx] at hx'
    cases hx'
    rw [Word.writeNumeral_join op hn hk hmax] at hw
    cases hw

section

variable {lines : List Line} {t : Tables} {strict : Bool} {l : Line} {address : Nat}

theorem failures_refused {found : List Finding} (hfound : found.filterMap Finding.failure? = [])
    (f : Finding) : (Encoding.refused found f).findings.filterMap Finding.failure? =
      f.failure?.toList := by
  show (found ++ [f]).filterMap Finding.failure? = _
  rw [List.filterMap_append, hfound]
  cases f <;> rfl

theorem failures_warned {found : List Finding} (hfound : found.filterMap Finding.failure? = [])
    (p : Prop) [Decidable p] (text : String) :
    (if p then found ++ [l.warn text] else found).filterMap Finding.failure? = [] := by
  split
  · rw [List.filterMap_append, hfound]
    rfl
  · exact hfound

/-- An operand draws the error that the source has for it, and no other, unless a number is too
    long. -/
theorem failures_encodeOperand (ht : t.Of lines) (hnames : t.names = names lines) {op : Opcode}
    {x : String} {found : List Finding} (hfound : found.filterMap Finding.failure? = []) :
    (encodeOperand t strict l address op x found).findings.filterMap Finding.failure? =
        ((operandComplaint? strict lines op x).map (failureOf l)).toList ∨
      ∃ e, TooLong lines op x e ∧
        (encodeOperand t strict l address op x found).findings.filterMap Finding.failure? =
          [.number e] := by
  unfold encodeOperand operandComplaint?
  rw [ht.resolve_eq, hnames]
  cases hx : meaning lines x with
  | error e => exact .inr ⟨e, .operand hx, failures_refused hfound _⟩
  | ok m =>
    obtain ⟨n, res⟩ := m
    dsimp only
    rw [Bool.and_comm, Word.inRange_join_iff]
    cases hu : (strict && decide (res = .undefined)) with
    | true => exact .inl (failures_refused hfound _)
    | false =>
      rw [if_neg Bool.false_ne_true, if_neg Bool.false_ne_true]
      cases hw : decide (Word.greatest < Word.join op.code n) with
      | true =>
        rw [Bool.not_true, Bool.not_false, if_pos rfl, if_pos (of_decide_eq_true hw)]
        cases hword : Text.writeNumeral (Word.join op.code n) with
        | error e => exact .inr ⟨e, .word hx hword, failures_refused (failures_warned hfound _ _) _⟩
        | ok s => exact .inl (failures_refused (failures_warned hfound _ _) _)
      | false =>
        rw [Bool.not_false, Bool.not_true, if_neg Bool.false_ne_true, if_neg (of_decide_eq_false hw)]
        exact .inl (failures_warned (failures_warned hfound _ _) _ _)

/-- An instruction line draws the error that the source has for it, and no other, unless a number is
    too long. -/
theorem failures_encode (ht : t.Of lines) (hnames : t.names = names lines) :
    (encode t strict l address).findings.filterMap Finding.failure? =
        ((complaint? strict lines l).map (failureOf l)).toList ∨
      ∃ mnemonic x extra op e, l.statement = .instruction mnemonic (some x) extra ∧
        TooLong lines op x e ∧
        (encode t strict l address).findings.filterMap Finding.failure? = [.number e] := by
  unfold encode complaint?
  cases hs : l.statement with
  | instruction mnemonic operand extra =>
    dsimp only
    cases Opcode.ofMnemonic? mnemonic with
    | none => exact .inl (@failures_refused [] rfl _)
    | some op =>
      have hextra : ∀ text,
          (if extra.isEmpty then [] else [l.warn text]).filterMap Finding.failure? = [] := by
        intro text
        split <;> rfl
      dsimp only
      cases op.takesOperand with
      | false =>
        rw [Bool.not_false, if_pos rfl, if_pos rfl]
        exact .inl (hextra _)
      | true =>
        rw [Bool.not_true, if_neg Bool.false_ne_true, if_neg Bool.false_ne_true]
        cases operand with
        | none => exact .inl (failures_refused (hextra _) _)
        | some x =>
          refine (failures_encodeOperand ht hnames (hextra _)).imp_right ?_
          rintro ⟨e, hlong, he⟩
          exact ⟨mnemonic, x, extra, op, e, rfl, hlong, he⟩
  | _ => exact .inl rfl

theorem failures_encodings (ht : t.Of lines) (hnames : t.names = names lines) {k : Nat}
    (hk : 4 ≤ k) (hmax : k < maxDigits) (ls : List Line) (start : Nat)
    (hl : ∀ l ∈ ls, ∀ mnemonic x extra, l.statement = .instruction mnemonic (some x) extra →
      ∃ n res, meaning lines x = .ok (n, res) ∧ n < 10 ^ k) :
    (((ls.zipIdx start).map fun (l, address) => encode t strict l address).flatMap
        Encoding.findings).filterMap Finding.failure? =
      (ls.filterMap fun l => (complaint? strict lines l).map l.diagnose).map .diagnostic := by
  induction ls generalizing start with
  | nil => rfl
  | cons l ls ih =>
    have hline := (@failures_encode lines t strict l start ht hnames).resolve_right fun hlong => by
      obtain ⟨mnemonic, x, extra, op, e, hs, hlong, -⟩ := hlong
      obtain ⟨n, res, hx, hn⟩ := hl l List.mem_cons_self mnemonic x extra hs
      exact not_tooLong hx hn hk hmax hlong
    rw [List.zipIdx_cons, List.map_cons, List.flatMap_cons, List.filterMap_append, hline,
      ih (start + 1) fun m hm => hl m (List.mem_cons_of_mem l hm), List.filterMap_cons]
    cases complaint? strict lines l <;> rfl

end

theorem complaint?_of_not_code {strict : Bool} {lines : List Line} {l : Line}
    (h : l.isCode = false) : complaint? strict lines l = none := by
  unfold Line.isCode at h
  unfold complaint?
  cases hs : l.statement with
  | instruction mnemonic operand extra => rw [hs] at h; cases h
  | _ => rfl

theorem names_tabulate (lines : List Line) :
    (tabulate lines).1.names = names (fitting lines) := by
  unfold Tables.names names
  rw [map_name_labels, (tabulate_fitting lines).symbols.names, defined_fitting]

/-- All that is wrong with lines: declarations first, then instructions. -/
theorem failures_findings {strict : Bool} {lines : List Line} {k : Nat} (hk : 4 ≤ k)
    (hmax : k < maxDigits)
    (hl : ∀ l ∈ lines, ∀ mnemonic x extra, l.statement = .instruction mnemonic (some x) extra →
      ∃ n res, meaning (fitting lines) x = .ok (n, res) ∧ n < 10 ^ k) :
    (findings strict lines).filterMap Finding.failure? =
      (declarationErrors lines ++ instructionErrors strict lines).map .diagnostic := by
  have hcode := @failures_encodings (fitting lines) (tabulate lines).1 strict
    (tabulate_fitting lines) (names_tabulate lines) k hk hmax (code lines)
    (tabulate lines).1.origin fun l hm => hl l (List.mem_filter.1 hm).1
  have herrors : (code lines).filterMap
      (fun l => (complaint? strict (fitting lines) l).map l.diagnose) =
        instructionErrors strict lines := by
    unfold code instructionErrors
    rw [List.filterMap_filter]
    congr 1
    funext l
    cases hc : l.isCode with
    | true => rfl
    | false =>
      rw [complaint?_of_not_code hc]
      rfl
  rw [herrors] at hcode
  unfold findings
  rw [List.filterMap_append, failures_tabulate, List.map_append]
  exact congrArg (_ ++ ·) hcode

/-! ## The verdict -/

end Assembly

end DecimalMachine
