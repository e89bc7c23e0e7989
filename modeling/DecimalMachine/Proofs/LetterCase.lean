import DecimalMachine.Proofs.LineReading
/-
  Texts in another case: what raising the ASCII letters of a text keeps. Blanks, digits, signs and
  slashes are not letters, and a letter in either case may begin or go on a name; so the text is cut
  at the same places (`beforeComment_raised`, `splitName_raised`), declares a variable exactly if it
  did (`variableOf?_raised`) and has the same mnemonics in it (`Opcode.ofMnemonic?_raised`).
-/
namespace DecimalMachine

namespace Text

/-- The text with all ASCII letters in upper case. -/
def raised (s : List Char) : List Char := s.map Char.toUpper

/-- Only the small letters are other characters in upper case. -/
theorem toUpper_invariant {β : Type} (f : Char → β)
    (h : ∀ n < 26, f (Char.ofNat (97 + n)).toUpper = f (Char.ofNat (97 + n))) (c : Char) :
    f c.toUpper = f c := by
  by_cases hc : c.val ≥ 'a'.val ∧ c.val ≤ 'z'.val
  · have hn : 97 ≤ c.toNat ∧ c.toNat ≤ 122 := by
      simpa [UInt32.le_iff_toNat_le] using hc
    have hofNat : Char.ofNat (97 + (c.toNat - 97)) = c := by
      rw [Nat.add_sub_cancel' hn.1]
      exact Char.ofNat_toNat c
    have hf := h (c.toNat - 97) (by omega)
    rwa [hofNat] at hf
  · have hkeep : c.toUpper = c := dif_neg hc
    rw [hkeep]

theorem isBlank_toUpper (c : Char) : isBlank c.toUpper = isBlank c :=
  toUpper_invariant isBlank (by decide) c

theorem isDigit_toUpper (c : Char) : c.toUpper.isDigit = c.isDigit :=
  toUpper_invariant Char.isDigit (by decide) c

/-- A mark is a character that is no letter. -/
theorem toUpper_eq_mark {d : Char} (h : ∀ n < 26, Char.ofNat (97 + n) ≠ d ∧
    (Char.ofNat (97 + n)).toUpper ≠ d) (c : Char) : c.toUpper = d ↔ c = d := by
  have hiff := toUpper_invariant (fun c => decide (c = d)) (fun n hn => by simp [h n hn]) c
  simpa using hiff

theorem upper_raised (s : List Char) : upper (raised s) = upper s := by
  unfold upper raised
  rw [List.flatMap_map]
  congr 1
  funext c
  exact toUpper_invariant upperChar (by decide) c

theorem raised_append (s t : List Char) : raised (s ++ t) = raised s ++ raised t :=
  List.map_append

theorem length_raised (s : List Char) : (raised s).length = s.length := List.length_map _

theorem raised_eq_nil {s : List Char} : raised s = [] ↔ s = [] := List.map_eq_nil_iff

theorem trimLeft_raised (s : List Char) : trimLeft (raised s) = raised (trimLeft s) := by
  unfold trimLeft raised
  rw [List.dropWhile_map]
  congr 2
  funext c
  exact isBlank_toUpper c

/-- What a text in another case ends with, if that is no letter. -/
theorem getLast?_raised {d : Char} (h : ∀ c : Char, c.toUpper = d ↔ c = d) (s : List Char) :
    (raised s).getLast? = some d ↔ s.getLast? = some d := by
  unfold raised
  rw [List.getLast?_map]
  cases s.getLast? with
  | none => simp
  | some c => simpa using h c

theorem all_raised {p : Char → Bool} (h : ∀ c : Char, p c.toUpper = p c) (s : List Char) :
    (raised s).all p = s.all p := by
  unfold raised
  rw [List.all_map]
  congr 1
  funext c
  exact h c

theorem splitSign_raised (s : List Char) : (splitSign (raised s)).2 = raised (splitSign s).2 := by
  cases s with
  | nil => rfl
  | cons c r =>
    have hminus := toUpper_eq_mark (d := '-') (by decide) c
    have hplus := toUpper_eq_mark (d := '+') (by decide) c
    show (splitSign (c.toUpper :: raised r)).2 = raised (splitSign (c :: r)).2
    by_cases hm : c = '-'
    · subst hm
      rfl
    · by_cases hp : c = '+'
      · subst hp
        rfl
      · rw [splitSign, splitSign]
        · rfl
        all_goals simp_all

theorem isNumeral_raised (s : List Char) : isNumeral (raised s) = isNumeral s := by
  have hempty : ∀ s : List Char, (raised s).isEmpty = s.isEmpty := by
    intro s
    cases s <;> rfl
  unfold isNumeral isDigits
  rw [splitSign_raised, hempty, all_raised isDigit_toUpper]

end Text

open Text (raised)

theorem Opcode.ofMnemonic?_raised (s : List Char) :
    ofMnemonic? (String.ofList (raised s)) = ofMnemonic? (String.ofList s) := by
  unfold ofMnemonic?
  rw [String.toList_ofList, String.toList_ofList, Text.upper_raised]

theorem Opcode.isMnemonic_raised (s : List Char) :
    isMnemonic (String.ofList (raised s)) = isMnemonic (String.ofList s) := by
  unfold isMnemonic
  rw [ofMnemonic?_raised]

namespace Source

theorem toUpper_eq_slash (c : Char) : c.toUpper = '/' ↔ c = '/' :=
  Text.toUpper_eq_mark (by decide) c

theorem isNameStart_toUpper (c : Char) : isNameStart c.toUpper = isNameStart c :=
  Text.toUpper_invariant isNameStart (by decide) c

theorem isNameRest_toUpper (c : Char) : isNameRest c.toUpper = isNameRest c :=
  Text.toUpper_invariant isNameRest (by decide) c

theorem beforeComment_raised (s : List Char) :
    beforeComment (raised s) = raised (beforeComment s) := by
  fun_induction beforeComment s with
  | case1 r => rfl
  | case2 c r h ih =>
    show beforeComment (c.toUpper :: raised r) = c.toUpper :: raised (beforeComment r)
    rw [beforeComment, ih]
    intro t hc hr
    cases r with
    | nil => cases hr
    | cons d r =>
      obtain ⟨hd, -⟩ := List.cons.inj hr
      exact h r ((toUpper_eq_slash c).1 hc) (congrArg (· :: r) ((toUpper_eq_slash d).1 hd))
  | case3 => rfl

theorem isName_raised (s : List Char) : isName (raised s) = isName s := by
  cases s with
  | nil => rfl
  | cons c r =>
    show (isNameStart c.toUpper && (raised r).all isNameRest) = _
    rw [isNameStart_toUpper, Text.all_raised isNameRest_toUpper]
    rfl

theorem splitName_raised (s : List Char) :
    splitName (raised s) = (raised (splitName s).1, raised (splitName s).2) := by
  have hrest : isNameRest ∘ Char.toUpper = isNameRest := funext isNameRest_toUpper
  unfold splitName raised
  rw [List.takeWhile_map, List.dropWhile_map, hrest]

def Declaration.raised : Declaration → Declaration
  | assigned name numeral => assigned (Text.raised name) (Text.raised numeral)
  | paired name numeral => paired (Text.raised name) (Text.raised numeral)
  | bare name => bare (Text.raised name)

section

variable {s : List Char} (hname : isName (splitName s).1 = true)
include hname

theorem declaration?_of_nil (h : Text.trimLeft (splitName s).2 = []) :
    declaration? s = if (splitName s).2.isEmpty then some (.bare (splitName s).1) else none := by
  unfold declaration?
  dsimp only
  rw [hname, h]
  rfl

theorem declaration?_of_equals {value : List Char}
    (h : Text.trimLeft (splitName s).2 = '=' :: value) :
    declaration? s = if Text.isNumeral (Text.trimLeft value) then
      some (.assigned (splitName s).1 (Text.trimLeft value)) else none := by
  unfold declaration?
  dsimp only
  rw [hname, h]
  rfl

theorem declaration?_of_cons {c : Char} {value : List Char}
    (h : Text.trimLeft (splitName s).2 = c :: value) (hc : c ≠ '=') :
    declaration? s =
      if (c :: value).length < (splitName s).2.length && Text.isNumeral (c :: value) then
        some (.paired (splitName s).1 (c :: value)) else none := by
  unfold declaration?
  dsimp only
  rw [hname, h, Bool.not_true, if_neg Bool.false_ne_true]
  split
  · rename_i hnil
    cases hnil
  · rename_i hequals
    exact absurd (List.cons.inj hequals).1 hc
  · rfl

end

/-- What stands behind the name decides the form, in either case. -/
theorem declaration?_raised (s : List Char) :
    declaration? (raised s) = (declaration? s).map Declaration.raised := by
  have hsplit := splitName_raised s
  have hbehind : Text.trimLeft (splitName (raised s)).2 =
      raised (Text.trimLeft (splitName s).2) := by
    rw [hsplit, Text.trimLeft_raised]
  have hnames : isName (splitName (raised s)).1 = isName (splitName s).1 := by
    rw [hsplit, isName_raised]
  by_cases hname : isName (splitName s).1 = true
  · have hname' := hnames.trans hname
    cases ht : Text.trimLeft (splitName s).2 with
    | nil =>
      rw [ht] at hbehind
      rw [declaration?_of_nil hname ht, declaration?_of_nil hname' hbehind, hsplit]
      cases (splitName s).2 <;> rfl
    | cons c value =>
      rw [ht] at hbehind
      by_cases hc : c = '='
      · subst hc
        rw [declaration?_of_equals hname ht, declaration?_of_equals hname' hbehind, hsplit]
        show (if Text.isNumeral (Text.trimLeft (raised value)) then
          some (Declaration.assigned _ (Text.trimLeft (raised value))) else none) = _
        rw [Text.trimLeft_raised, Text.isNumeral_raised]
        split <;> rfl
      · have hmark : c.toUpper ≠ '=' := fun h => hc ((Text.toUpper_eq_mark (by decide) c).1 h)
        rw [declaration?_of_cons hname ht hc, declaration?_of_cons hname' hbehind hmark, hsplit]
        show (if (raised (c :: value)).length < (raised (splitName s).2).length &&
          Text.isNumeral (raised (c :: value)) then
            some (Declaration.paired _ (raised (c :: value))) else none) = _
        rw [Text.isNumeral_raised, Text.length_raised, Text.length_raised]
        split <;> rfl
  · have hnone : ∀ {s : List Char}, ¬ isName (splitName s).1 = true → declaration? s = none := by
      intro s h
      unfold declaration?
      dsimp only
      rw [Bool.eq_false_iff.2 h]
      rfl
    rw [hnone hname, hnone (hnames ▸ hname)]
    rfl

theorem Declaration.isVariable_raised (d : Declaration) : d.raised.isVariable = d.isVariable := by
  cases d <;> simp only [Declaration.raised, isVariable, Opcode.isMnemonic_raised]

theorem variableOf?_raised (s : List Char) :
    variableOf? (raised s) = (variableOf? s).map Declaration.raised := by
  unfold variableOf?
  rw [declaration?_raised]
  cases declaration? s with
  | none => rfl
  | some d =>
    rw [Option.map_some, Option.filter_some, Option.filter_some, d.isVariable_raised]
    split <;> rfl

end Source

end DecimalMachine
