import DecimalMachine.Proofs.ImageReading
import DecimalMachine.Proofs.LineLayout
/-
  The grammar of a line: what a line must look like to be read as a statement, said without the
  functions that read it. A line is stripped of blanks (`Stripped`) and of its comment (`Uncommented`),
  and what is left is a phrase: a label, a declaration (`Declares`) or the words of an instruction
  (`Separated`). Each of these relations holds of just what the function finds that cuts the line in
  that way, and so a line is read as a statement exactly when the grammar says so
  (`readLine_grammar`).
-/
namespace DecimalMachine

namespace Grammar

/-! ## The grammar -/

/-- There is nothing but white space in the text. -/
def Blanks (s : List Char) : Prop := ∀ c ∈ s, Text.isBlank c = true

/-- The text `t` is `s` without the blanks around it. -/
def Stripped (s t : List Char) : Prop :=
  ∃ a b, s = a ++ t ++ b ∧ Blanks a ∧ Blanks b ∧ Text.Trimmed t

/-- The text is what stands in `t` before its first `//`, or all of `t` if there is none. -/
inductive Uncommented (t : List Char) : List Char → Prop
  | whole (h : ¬ ['/', '/'] <:+: t) : Uncommented t t
  | front {p r : List Char} (h : t = p ++ '/' :: '/' :: r) (hp : ¬ ['/', '/'] <:+: p ++ ['/']) :
      Uncommented t p

/-- The words of a text, one after the other, with blanks between them. -/
inductive Separated : List Char → List (List Char) → Prop
  | nil {b : List Char} (hb : Blanks b) : Separated b []
  | cons {a w r : List Char} {ws : List (List Char)} (ha : Blanks a) (hne : w ≠ [])
      (hw : ∀ c ∈ w, Text.isBlank c = false) (hr : ∀ c ∈ r.head?, Text.isBlank c = true)
      (h : Separated r ws) : Separated (a ++ w ++ r) (w :: ws)

/-- An ASCII letter. -/
def Letter (c : Char) : Prop := 'A' ≤ c ∧ c ≤ 'Z' ∨ 'a' ≤ c ∧ c ≤ 'z'

/-- An ASCII digit. -/
def Digit (c : Char) : Prop := '0' ≤ c ∧ c ≤ '9'

/-- A letter or underscore, and then letters, digits and underscores. -/
inductive Identifier : List Char → Prop
  | mk {c : Char} {r : List Char} (hc : Letter c ∨ c = '_')
      (hr : ∀ d ∈ r, Letter d ∨ Digit d ∨ d = '_') : Identifier (c :: r)

def Digits (s : List Char) : Prop := s ≠ [] ∧ ∀ c ∈ s, Digit c

/-- One or more digits, with a sign in front of them or without, and the number that they are. -/
inductive Integer : List Char → Int → Prop
  | unsigned {s : List Char} (h : Digits s) : Integer s (Nat.ofDigitChars 10 s 0)
  | positive {s : List Char} (h : Digits s) : Integer ('+' :: s) (Nat.ofDigitChars 10 s 0)
  | negative {s : List Char} (h : Digits s) : Integer ('-' :: s) (-(Nat.ofDigitChars 10 s 0 : Int))

/-- A spelling of an operation, in whatever case its letters are. -/
def Mnemonic (n : List Char) : Prop :=
  ∃ op : Opcode, ∃ m ∈ op.mnemonics, m.toList = n.map Char.toUpper

/-- The text `c` declares a variable with the name `n`, and with the numeral if it has one. -/
inductive Declares (c n : List Char) : Option (List Char) → Prop
  | assigned {a b s : List Char} {v : Int} (h : c = n ++ (a ++ '=' :: (b ++ s))) (hn : Identifier n)
      (ha : Blanks a) (hb : Blanks b) (hs : Integer s v) : Declares c n (some s)
  | paired {a s : List Char} {v : Int} (h : c = n ++ (a ++ s)) (hn : Identifier n)
      (hm : ¬ Mnemonic n) (ha : Blanks a) (hne : a ≠ []) (hs : Integer s v) : Declares c n (some s)
  | bare (h : c = n) (hn : Identifier n) (hm : ¬ Mnemonic n) : Declares c n none

/-- The value that a declaration gives its variable: that of the numeral, or zero. -/
inductive Value : Option (List Char) → Int → Prop
  | numeral {s : List Char} {v : Int} (h : Integer s v) : Value (some s) v
  | zero : Value none 0

/-- What a line says that has neither a comment nor blanks around it; nothing if it is a colon. -/
inductive Phrase (c : List Char) : Option Statement → Prop
  | nameless (h : c = [':']) : Phrase c none
  | label {a name : List Char} (h : c = a ++ [':']) (ha : Stripped a name) (hne : name ≠ []) :
      Phrase c (some (.label (String.ofList name)))
  | declaration {n : List Char} {s : Option (List Char)} {v : Int} (h : Declares c n s)
      (hv : Value s v) : Phrase c (some (.variable (String.ofList n) v))
  | instruction {m : List Char} {ws : List (List Char)} (hc : c.getLast? ≠ some ':')
      (hd : ∀ n s, ¬ Declares c n s) (hw : Separated c (m :: ws)) :
      Phrase c (some (.instruction (String.ofList m) (ws.head?.map String.ofList)
        (ws.tail.map String.ofList)))

/-- What a line says. -/
inductive Classified (raw : List Char) : Option Statement → Prop
  | blank (h : Stripped raw []) : Classified raw (some .blank)
  | comment {t : List Char} (h : Stripped raw t) (hc : ['/', '/'] <+: t) :
      Classified raw (some .comment)
  | phrase {t p c : List Char} {o : Option Statement} (h : Stripped raw t) (hne : t ≠ [])
      (hno : ¬ ['/', '/'] <+: t) (hp : Uncommented t p) (hc : Stripped p c) (ho : Phrase c o) :
      Classified raw o

/-! ## Blanks and comments -/

theorem blanks_takeWhile (s : List Char) : Blanks (s.takeWhile Text.isBlank) :=
  fun _ hc => List.mem_takeWhile_imp hc

theorem takeWhile_append_trimLeft (s : List Char) :
    s.takeWhile Text.isBlank ++ Text.trimLeft s = s := List.takeWhile_append_dropWhile

theorem stripped_iff {s t : List Char} : Stripped s t ↔ Text.trim s = t := by
  constructor
  · rintro ⟨a, b, rfl, ha, hb, ht⟩
    rw [Text.trim_append_blanks t ha hb, Text.trim_of_trimmed ht]
  · rintro rfl
    obtain ⟨a, b, hs, ha, hb⟩ := Text.exists_blanks s
    exact ⟨a, b, hs, ha, hb, Text.trimmed_trim s⟩

/-- The first `//` is found. -/
theorem beforeComment_of_first {p : List Char} (hp : ¬ ['/', '/'] <:+: p ++ ['/']) (r : List Char) :
    Source.beforeComment (p ++ '/' :: '/' :: r) = p := by
  induction p with
  | nil => rfl
  | cons c p ih =>
    rw [List.cons_append, List.infix_cons_iff, not_or] at hp
    rw [List.cons_append, Source.beforeComment, ih hp.2]
    rintro u rfl hu
    cases p with
    | nil => exact hp.1 ⟨[], rfl⟩
    | cons d p =>
      obtain ⟨rfl, -⟩ := List.cons.inj hu
      exact hp.1 ⟨p ++ ['/'], rfl⟩

theorem uncommented_beforeComment (t : List Char) : Uncommented t (Source.beforeComment t) := by
  fun_induction Source.beforeComment t with
  | case1 r => exact .front (p := []) rfl (by decide)
  | case2 c r h ih =>
    have hfirst : ¬ ['/', '/'] <+: c :: r := by
      rintro ⟨u, hu⟩
      obtain ⟨rfl, hr⟩ := List.cons.inj hu
      exact h u rfl hr.symm
    revert ih
    generalize Source.beforeComment r = p
    intro ih
    cases ih with
    | whole hno =>
      refine .whole ?_
      rw [List.infix_cons_iff, not_or]
      exact ⟨hfirst, hno⟩
    | @front _ u hr hp =>
      refine .front (congrArg (c :: ·) hr) ?_
      rw [List.cons_append, List.infix_cons_iff, not_or]
      refine ⟨fun hpre => hfirst ?_, hp⟩
      -- The two characters that the comment would begin with stand in the text itself.
      have hcut : c :: r = (c :: (p ++ ['/'])) ++ '/' :: u := by simp [hr]
      exact hcut ▸ hpre.trans (List.prefix_append _ _)
  | case3 => exact .whole (by decide)

theorem uncommented_iff {t p : List Char} : Uncommented t p ↔ Source.beforeComment t = p := by
  constructor
  · rintro (h | ⟨rfl, hp⟩)
    · exact Source.beforeComment_of_no_comment h
    · exact beforeComment_of_first hp _
  · rintro rfl
    exact uncommented_beforeComment t

/-- Nothing is left of a line without its comment only if there is nothing but the comment. -/
theorem stripComment_eq_nil_iff {t : List Char} (ht : Text.Trimmed t) (hne : t ≠ []) :
    Source.stripComment t = [] ↔ ['/', '/'] <+: t := by
  constructor
  · intro h
    cases t with
    | nil => exact absurd rfl hne
    | cons c r =>
      by_contra hno
      have hkeep : Source.beforeComment (c :: r) = c :: Source.beforeComment r := by
        rw [Source.beforeComment]
        rintro u rfl rfl
        exact hno ⟨u, rfl⟩
      have hblank : Text.isBlank c = true :=
        Text.trim_eq_nil.1 h c (hkeep ▸ List.mem_cons_self)
      rw [ht.1 c rfl] at hblank
      cases hblank
  · rintro ⟨u, rfl⟩
    rfl

/-! ## Words -/

/-- Behind the blanks in front of it a text begins with its first word. -/
theorem exists_word {s : List Char} (hs : ¬ Blanks s) :
    ∃ a w r, s = a ++ w ++ r ∧ Blanks a ∧ w ≠ [] ∧ (∀ c ∈ w, Text.isBlank c = false) ∧
      ∀ c ∈ r.head?, Text.isBlank c = true := by
  obtain ⟨c, t, hct⟩ := List.exists_cons_of_ne_nil (mt Text.trimLeft_eq_nil.1 hs)
  have hc : Text.isBlank c = false := by
    have hd := List.head?_dropWhile_not Text.isBlank s
    unfold Text.trimLeft at hct
    rw [hct] at hd
    simpa using hd
  refine ⟨s.takeWhile Text.isBlank, c :: t.takeWhile (!Text.isBlank ·),
    t.dropWhile (!Text.isBlank ·), ?_, blanks_takeWhile s, List.cons_ne_nil _ _, ?_, fun d hd => ?_⟩
  · rw [List.append_assoc, List.cons_append, List.takeWhile_append_dropWhile, ← hct,
      takeWhile_append_trimLeft]
  · refine List.forall_mem_cons.2 ⟨hc, fun d hd => ?_⟩
    simpa using List.mem_takeWhile_imp hd
  · have hdrop := List.head?_dropWhile_not (!Text.isBlank ·) t
    rw [show (t.dropWhile (!Text.isBlank ·)).head? = some d from hd] at hdrop
    simpa using hdrop

theorem separated_words (s : List Char) : Separated s (Text.words s) := by
  by_cases hs : Blanks s
  · rw [Text.words_of_blanks hs]
    exact .nil hs
  · obtain ⟨a, w, r, hcut, ha, hne, hw, hr⟩ := exists_word hs
    have hlt : r.length < s.length := by
      have hpos := List.length_pos_of_ne_nil hne
      rw [hcut, List.length_append, List.length_append]
      omega
    have hwords : Text.words s = w :: Text.words r := by
      rw [hcut, List.append_assoc, Text.words_append_left ha, Text.words_append hne hw hr]
    have hrest := Separated.cons ha hne hw hr (separated_words r)
    rwa [← hcut, ← hwords] at hrest
termination_by s.length

theorem separated_iff {s : List Char} {ws : List (List Char)} :
    Separated s ws ↔ Text.words s = ws := by
  constructor
  · intro h
    induction h with
    | nil hb => exact Text.words_of_blanks hb
    | cons ha hne hw hr _ ih =>
      rw [List.append_assoc, Text.words_append_left ha, Text.words_append hne hw hr, ih]
  · rintro rfl
    exact separated_words s

/-! ## Identifiers and numerals -/

theorem letter_iff {c : Char} : Letter c ↔ c.isAlpha = true := by
  have h : c.isAlpha = (decide (c.val ≥ 'A'.val ∧ c.val ≤ 'Z'.val) ||
      (decide (c.val ≥ 'a'.val) && decide (c.val ≤ 'z'.val))) := rfl
  rw [h, Bool.or_eq_true, Bool.and_eq_true, decide_eq_true_eq, decide_eq_true_eq,
    decide_eq_true_eq]
  exact Iff.rfl

theorem digit_iff {c : Char} : Digit c ↔ c.isDigit = true := by
  simp [Digit, Char.isDigit, Char.le_def]

theorem identifier_iff {n : List Char} : Identifier n ↔ Source.isName n = true := by
  have hstart : ∀ c, Source.isNameStart c = true ↔ Letter c ∨ c = '_' := fun c => by
    simp [Source.isNameStart, letter_iff]
  have hrest : ∀ c, Source.isNameRest c = true ↔ Letter c ∨ Digit c ∨ c = '_' := fun c => by
    simp [Source.isNameRest, Char.isAlphanum, letter_iff, digit_iff, or_assoc]
  constructor
  · rintro ⟨hc, hr⟩
    exact Bool.and_eq_true_iff.2
      ⟨(hstart _).2 hc, List.all_eq_true.2 fun d hd => (hrest d).2 (hr d hd)⟩
  · intro h
    cases n with
    | nil => cases h
    | cons c r =>
      obtain ⟨hc, hr⟩ := Bool.and_eq_true_iff.1 h
      exact ⟨(hstart c).1 hc, fun d hd => (hrest d).1 (List.all_eq_true.1 hr d hd)⟩

theorem digits_iff {s : List Char} : Digits s ↔ Text.isDigits s = true := by
  simp [Digits, Text.isDigits, digit_iff]

theorem integer_iff {s : List Char} {v : Int} :
    Integer s v ↔ Text.isNumeral s = true ∧ Text.numeralValue s = v := by
  constructor
  · rintro (h | h | h)
    · have hs := digits_iff.1 h
      unfold Text.isNumeral Text.numeralValue
      rw [Text.splitSign_of_isDigits hs]
      exact ⟨hs, rfl⟩
    · exact ⟨digits_iff.1 h, rfl⟩
    · exact ⟨digits_iff.1 h, rfl⟩
  · rintro ⟨h, rfl⟩
    unfold Text.isNumeral at h
    unfold Text.numeralValue
    revert h
    fun_cases Text.splitSign s with
    | case1 r => exact fun h => .negative (digits_iff.2 h)
    | case2 r => exact fun h => .positive (digits_iff.2 h)
    | case3 => exact fun h => .unsigned (digits_iff.2 h)

/-- The upper case of an identifier is that of its ASCII letters. -/
theorem upper_of_isName {n : List Char} (h : Source.isName n = true) :
    Text.upper n = n.map Char.toUpper := by
  have hall := (Source.of_isName h).2.1
  clear h
  unfold Text.upper
  induction n with
  | nil => rfl
  | cons c r ih =>
    obtain ⟨hc, hr⟩ := Bool.and_eq_true_iff.1 hall
    have hascii := Source.toNat_of_isNameRest hc
    have hone : Text.upperChar c = [c.toUpper] := if_pos (by omega)
    rw [List.flatMap_cons, hone, ih hr, List.map_cons, List.singleton_append]

theorem mnemonic_iff {n : List Char} (hn : Source.isName n = true) :
    Mnemonic n ↔ Opcode.isMnemonic (String.ofList n) = true := by
  unfold Mnemonic Opcode.isMnemonic Opcode.ofMnemonic?
  rw [List.find?_isSome, String.toList_ofList, upper_of_isName hn]
  constructor
  · rintro ⟨op, m, hm, hupper⟩
    refine ⟨op, Opcode.mem_all op, List.contains_iff_mem.2 ?_⟩
    rw [← hupper, String.ofList_toList]
    exact hm
  · rintro ⟨op, -, hm⟩
    exact ⟨op, _, List.contains_iff_mem.1 hm, String.toList_ofList⟩

/-! ## Declarations -/

/-- A numeral is not empty, it has no blank at its front and begins with no equals sign. -/
theorem head_of_integer {s : List Char} {v : Int} (h : Integer s v) :
    ∃ c r, s = c :: r ∧ Text.isBlank c = false ∧ c ≠ '=' := by
  have hdigit : ∀ {c}, Digit c → Text.isBlank c = false ∧ c ≠ '=' := by
    intro c hc
    refine ⟨Text.isBlank_of_isDigit (digit_iff.1 hc), ?_⟩
    rintro rfl
    cases digit_iff.1 hc
  cases h with
  | unsigned h =>
    obtain ⟨c, r, rfl⟩ := List.exists_cons_of_ne_nil h.1
    exact ⟨c, r, rfl, hdigit (h.2 c List.mem_cons_self)⟩
  | positive h => exact ⟨_, _, rfl, by decide, by decide⟩
  | negative h => exact ⟨_, _, rfl, by decide, by decide⟩

theorem trimLeft_integer {a s : List Char} {v : Int} (ha : Blanks a) (h : Integer s v) :
    Text.trimLeft (a ++ s) = s := by
  obtain ⟨c, r, rfl, hc, -⟩ := head_of_integer h
  rw [Text.trimLeft_append_blank _ ha]
  refine Text.trimLeft_of_head fun d hd => ?_
  obtain rfl := Option.some.inj hd
  exact hc

theorem not_isNameRest_of_equals {a t : List Char} (ha : Blanks a) :
    ∀ c ∈ (a ++ '=' :: t).head?, Source.isNameRest c = false := by
  intro c hc
  cases a with
  | nil =>
    obtain rfl := Option.some.inj hc
    rfl
  | cons b a =>
    obtain rfl := Option.some.inj hc
    exact Source.not_isNameRest_of_blank (ha _ List.mem_cons_self)

theorem not_isNameRest_of_blanks {a t : List Char} (ha : Blanks a) (hne : a ≠ []) :
    ∀ c ∈ (a ++ t).head?, Source.isNameRest c = false := by
  intro c hc
  obtain ⟨b, a, rfl⟩ := List.exists_cons_of_ne_nil hne
  obtain rfl := Option.some.inj hc
  exact Source.not_isNameRest_of_blank (ha _ List.mem_cons_self)

/-- What the grammar takes for a declaration is found to be one. -/
theorem variableOf?_of_declares {c n : List Char} {s : Option (List Char)} (h : Declares c n s) :
    ∃ d, Source.variableOf? c = some d ∧ d.name = n ∧ d.numeral? = s := by
  have hfound : ∀ d : Source.Declaration, Source.declaration? c = some d → d.isVariable = true →
      Source.variableOf? c = some d := by
    intro d hd hv
    exact Option.filter_eq_some_iff.2 ⟨hd, hv⟩
  have hvariable : ∀ hn : Source.isName n = true, ¬ Mnemonic n →
      (!Opcode.isMnemonic (String.ofList n)) = true := by
    intro hn hm
    rw [mnemonic_iff hn] at hm
    simpa using hm
  cases h with
  | @assigned a b s v hc hn ha hb hs =>
    have hname := identifier_iff.1 hn
    have hsplit := Source.splitName_of_apart hname (not_isNameRest_of_equals (t := b ++ s) ha)
    rw [← hc] at hsplit
    have htrim : Text.trimLeft (Source.splitName c).2 = '=' :: (b ++ s) := by
      rw [hsplit, Text.trimLeft_append_blank _ ha]
      rfl
    have hd := Source.declaration?_of_equals (by rw [hsplit, hname]) htrim
    rw [trimLeft_integer hb hs, if_pos (integer_iff.1 hs).1, hsplit] at hd
    exact ⟨_, hfound _ hd rfl, rfl, rfl⟩
  | @paired a s v hc hn hm ha hne hs =>
    have hname := identifier_iff.1 hn
    have hsplit := Source.splitName_of_apart hname (not_isNameRest_of_blanks (t := s) ha hne)
    rw [← hc] at hsplit
    have htrim : Text.trimLeft (Source.splitName c).2 = s := by
      rw [hsplit, trimLeft_integer ha hs]
    obtain ⟨x, r, rfl, -, hx⟩ := head_of_integer hs
    have hd := Source.declaration?_of_cons (by rw [hsplit, hname]) htrim hx
    have hlonger : (x :: r).length < (a ++ x :: r).length := by
      rw [List.length_append]
      have := List.length_pos_of_ne_nil hne
      omega
    rw [hsplit, decide_eq_true hlonger, (integer_iff.1 hs).1] at hd
    exact ⟨_, hfound _ hd (hvariable hname hm), rfl, rfl⟩
  | bare hc hn hm =>
    subst hc
    have hname := identifier_iff.1 hn
    have hsplit : Source.splitName c = (c, []) := by
      have h := Source.splitName_of_apart (t := []) hname nofun
      rwa [List.append_nil] at h
    have hd := Source.declaration?_of_nil (by rw [hsplit, hname]) (by rw [hsplit]; rfl)
    rw [hsplit] at hd
    exact ⟨_, hfound _ hd (hvariable hname hm), rfl, rfl⟩

theorem isName_of_declaration? {c : List Char} {d : Source.Declaration}
    (h : Source.declaration? c = some d) : Source.isName (Source.splitName c).1 = true := by
  by_contra hno
  unfold Source.declaration? at h
  dsimp only at h
  rw [Bool.eq_false_iff.2 hno] at h
  cases h

/-- What is found to be a declaration is one by the grammar. -/
theorem declares_of_variableOf? {c : List Char} {d : Source.Declaration}
    (h : Source.variableOf? c = some d) : Declares c d.name d.numeral? := by
  obtain ⟨hd, hv⟩ := Option.filter_eq_some_iff.1 h
  have hcut : (Source.splitName c).1 ++ (Source.splitName c).2 = c :=
    List.takeWhile_append_dropWhile
  have hname := isName_of_declaration? hd
  have hn := identifier_iff.2 hname
  have hmnemonic : (!Opcode.isMnemonic (String.ofList (Source.splitName c).1)) = true →
      ¬ Mnemonic (Source.splitName c).1 := by
    intro hv hm
    rw [(mnemonic_iff hname).1 hm] at hv
    cases hv
  cases hrest : Text.trimLeft (Source.splitName c).2 with
  | nil =>
    rw [Source.declaration?_of_nil hname hrest] at hd
    split at hd
    · rename_i hempty
      obtain rfl := Option.some.inj hd
      rw [List.isEmpty_iff.1 hempty, List.append_nil] at hcut
      exact .bare hcut.symm hn (hmnemonic hv)
    · cases hd
  | cons x value =>
    have hfront := takeWhile_append_trimLeft (Source.splitName c).2
    rw [hrest] at hfront
    by_cases hx : x = '='
    · subst hx
      rw [Source.declaration?_of_equals hname hrest] at hd
      split at hd
      · rename_i hnum
        obtain rfl := Option.some.inj hd
        have hall : c = (Source.splitName c).1 ++ ((Source.splitName c).2.takeWhile Text.isBlank ++
            '=' :: (value.takeWhile Text.isBlank ++ Text.trimLeft value)) := by
          rw [takeWhile_append_trimLeft, hfront]
          exact hcut.symm
        exact .assigned hall hn (blanks_takeWhile _) (blanks_takeWhile value)
          (integer_iff.2 ⟨hnum, rfl⟩)
      · cases hd
    · rw [Source.declaration?_of_cons hname hrest hx] at hd
      split at hd
      · rename_i hform
        obtain rfl := Option.some.inj hd
        obtain ⟨hlonger, hnum⟩ := Bool.and_eq_true_iff.1 hform
        have hall : c = (Source.splitName c).1 ++
            ((Source.splitName c).2.takeWhile Text.isBlank ++ x :: value) := by
          rw [hfront]
          exact hcut.symm
        refine .paired hall hn (hmnemonic hv) (blanks_takeWhile _) (fun hnil => ?_)
          (integer_iff.2 ⟨hnum, rfl⟩)
        rw [hnil, List.nil_append] at hfront
        rw [hfront] at hlonger
        exact absurd (of_decide_eq_true hlonger) (Nat.lt_irrefl _)
      · cases hd

theorem declares_iff {c n : List Char} {s : Option (List Char)} :
    Declares c n s ↔ ∃ d, Source.variableOf? c = some d ∧ d.name = n ∧ d.numeral? = s := by
  constructor
  · exact variableOf?_of_declares
  · rintro ⟨d, hd, rfl, rfl⟩
    exact declares_of_variableOf? hd

/-- A text declares one name, with one numeral. -/
theorem Declares.unique {c n n' : List Char} {s s' : Option (List Char)} (h : Declares c n s)
    (h' : Declares c n' s') : n = n' ∧ s = s' := by
  obtain ⟨d, hd, rfl, rfl⟩ := declares_iff.1 h
  obtain ⟨d', hd', rfl, rfl⟩ := declares_iff.1 h'
  obtain rfl := Option.some.inj (hd.symm.trans hd')
  exact ⟨rfl, rfl⟩

/-- There is no colon in a declaration. -/
theorem Declares.no_colon {c n : List Char} {s : Option (List Char)} (h : Declares c n s) :
    ':' ∉ c := by
  have hname : ∀ {n}, Identifier n → ':' ∉ n := by
    intro n hn hmem
    cases List.all_eq_true.1 (Source.of_isName (identifier_iff.1 hn)).2.1 _ hmem
  have hblanks : ∀ {a}, Blanks a → ':' ∉ a := fun ha hmem => absurd (ha _ hmem) (by decide)
  have hdigits : ∀ {s}, Digits s → ':' ∉ s := by
    intro s hs hmem
    cases digit_iff.1 (hs.2 _ hmem)
  have hinteger : ∀ {s v}, Integer s v → ':' ∉ s := by
    rintro s v (hs | hs | hs)
    · exact hdigits hs
    · exact fun hmem => (List.mem_cons.1 hmem).elim nofun (hdigits hs)
    · exact fun hmem => (List.mem_cons.1 hmem).elim nofun (hdigits hs)
  cases h with
  | assigned hc hn ha hb hs =>
    rw [hc]
    simp [hname hn, hblanks ha, hblanks hb, hinteger hs]
  | paired hc hn _ ha _ hs =>
    rw [hc]
    simp [hname hn, hblanks ha, hinteger hs]
  | bare hc hn =>
    rw [hc]
    exact hname hn

/-- Without long runs of digits the value of a declaration is the one that is read. -/
theorem value_iff {c : List Char} {d : Source.Declaration} (hd : Source.variableOf? c = some d)
    (hruns : Text.DigitRuns maxDigits c) {v : Int} : Value d.numeral? v ↔ d.value = .ok v := by
  have hcut := Source.cut_of_declaration? (Option.filter_eq_some_iff.1 hd).1
  unfold Source.Declaration.value
  cases hnum : d.numeral? with
  | none =>
    constructor
    · rintro ⟨⟩
      rfl
    · intro h
      obtain rfl := Except.ok.inj h
      exact .zero
  | some s =>
    obtain ⟨hs, hinfix⟩ := hcut.numeral s hnum
    have hdigits := (Text.splitSign_isSuffix s).isInfix.trans hinfix
    have hlen : (Text.splitSign s).2.length ≤ maxDigits :=
      hruns _ hdigits (Bool.and_eq_true_iff.1 hs).2
    rw [Text.intOfNumeral_eq_ok_iff, and_iff_right hlen]
    constructor
    · rintro ⟨h⟩
      exact (integer_iff.1 h).2
    · rintro rfl
      exact .numeral (integer_iff.2 ⟨hs, rfl⟩)

/-! ## Phrases and lines -/

theorem phrase_iff {c : List Char} (hne : c ≠ []) (ht : Text.Trimmed c)
    (hruns : Text.DigitRuns maxDigits c) {o : Option Statement} :
    Phrase c o ↔ Source.statement c = .ok o := by
  constructor
  · intro h
    cases h with
    | nameless h => exact (Source.statement_eq_none_iff ht).2 h
    | @label a name hc ha hname =>
      subst hc
      unfold Source.statement
      rw [if_pos (by simp), List.dropLast_concat, stripped_iff.1 ha]
      dsimp only
      rw [List.isEmpty_eq_false_iff.2 hname]
      rfl
    | @declaration n s v h hv =>
      have hcolon : c.getLast? ≠ some ':' := fun hl => h.no_colon (List.mem_of_getLast? hl)
      obtain ⟨d, hd, rfl, rfl⟩ := declares_iff.1 h
      unfold Source.statement
      rw [if_neg hcolon, hd]
      dsimp only
      rw [Source.statementOfDeclaration_eq, (value_iff hd hruns).1 hv]
      rfl
    | instruction hcolon hno hw =>
      have hnone : Source.variableOf? c = none := by
        cases hd : Source.variableOf? c with
        | none => rfl
        | some d => exact absurd (declares_of_variableOf? hd) (hno _ _)
      unfold Source.statement
      rw [if_neg hcolon, hnone, separated_iff.1 hw]
      rfl
  · intro h
    have hkind := h
    unfold Source.statement at hkind
    split at hkind
    · rename_i hcolon
      dsimp only at hkind
      split at hkind
      · obtain rfl := Except.ok.inj hkind
        exact .nameless ((Source.statement_eq_none_iff ht).1 h)
      · rename_i hname
        obtain rfl := Except.ok.inj hkind
        obtain ⟨hne, hlast⟩ := List.mem_getLast?_eq_getLast hcolon
        refine .label ?_ (stripped_iff.2 rfl) fun hnil => hname (List.isEmpty_iff.2 hnil)
        rw [hlast, List.dropLast_append_getLast hne]
    · rename_i hcolon
      split at hkind
      · rename_i d hd
        rw [Source.statementOfDeclaration_eq] at hkind
        cases hv : d.value with
        | error e => rw [hv] at hkind; cases hkind
        | ok v =>
          rw [hv] at hkind
          obtain rfl := Except.ok.inj hkind
          exact .declaration (declares_of_variableOf? hd) ((value_iff hd hruns).2 hv)
      · rename_i hnone
        obtain rfl := Except.ok.inj hkind
        have hno : ∀ n s, ¬ Declares c n s := by
          intro n s hdeclares
          obtain ⟨d, hd, -⟩ := declares_iff.1 hdeclares
          rw [hnone] at hd
          cases hd
        obtain ⟨x, r, rfl⟩ := List.exists_cons_of_ne_nil hne
        obtain ⟨m, ws, hw⟩ := List.exists_cons_of_ne_nil
          (Text.words_ne_nil List.mem_cons_self (ht.1 x rfl))
        rw [hw]
        exact .instruction hcolon hno (separated_iff.2 hw)

/-- A line that is neither blank nor a comment says what its phrase says, and that is not empty. -/
theorem phrase_of_line {raw t p c : List Char} (h : Stripped raw t) (hne : t ≠ [])
    (hno : ¬ ['/', '/'] <+: t) (hp : Uncommented t p) (hc : Stripped p c) :
    Source.stripComment (Text.trim raw) = c ∧ c ≠ [] := by
  obtain rfl := stripped_iff.1 h
  obtain rfl := uncommented_iff.1 hp
  obtain rfl := stripped_iff.1 hc
  exact ⟨rfl, fun hnil => hno ((stripComment_eq_nil_iff (Text.trimmed_trim raw) hne).1 hnil)⟩

theorem trim_ne_nil {raw : List Char} (h : Source.stripComment (Text.trim raw) ≠ []) :
    Text.trim raw ≠ [] := by
  intro hnil
  rw [hnil] at h
  exact h rfl

theorem classified_of_blank {raw : List Char} (h : Text.trim raw = []) {o : Option Statement} :
    Classified raw o ↔ o = some .blank := by
  constructor
  · rintro (_ | ⟨ht, u, hc⟩ | ⟨ht, hne, -, -, -, -⟩)
    · rfl
    · rw [← stripped_iff.1 ht, h] at hc
      cases hc
    · exact absurd (stripped_iff.1 ht ▸ h) hne
  · rintro rfl
    exact .blank (stripped_iff.2 h)

theorem classified_of_comment {raw : List Char} (hne : Text.trim raw ≠ [])
    (h : Source.stripComment (Text.trim raw) = []) {o : Option Statement} :
    Classified raw o ↔ o = some .comment := by
  constructor
  · rintro (ht | _ | ⟨ht, hne, hno, hp, hc, -⟩)
    · exact absurd (stripped_iff.1 ht) hne
    · rfl
    · obtain ⟨heq, hphrase⟩ := phrase_of_line ht hne hno hp hc
      exact absurd (heq ▸ h) hphrase
  · rintro rfl
    exact .comment (stripped_iff.2 rfl) ((stripComment_eq_nil_iff (Text.trimmed_trim raw) hne).1 h)

theorem classified_of_phrase {raw : List Char} (hruns : Text.DigitRuns maxDigits raw)
    (h : Source.stripComment (Text.trim raw) ≠ []) {o : Option Statement} :
    Classified raw o ↔ Source.statement (Source.stripComment (Text.trim raw)) = .ok o := by
  have hne := trim_ne_nil h
  have hcomment : ¬ ['/', '/'] <+: Text.trim raw := fun hc =>
    h ((stripComment_eq_nil_iff (Text.trimmed_trim raw) hne).2 hc)
  have hcut : Source.stripComment (Text.trim raw) <:+: raw :=
    (Source.stripComment_isInfix _).trans (Text.trim_isInfix raw)
  rw [← phrase_iff h (Text.trimmed_trim _) (hruns.cut hcut)]
  constructor
  · rintro (ht | ⟨ht, hc⟩ | ⟨ht, hne, hno, hp, hc, ho⟩)
    · exact absurd (stripped_iff.1 ht) hne
    · rw [← stripped_iff.1 ht] at hc
      exact absurd hc hcomment
    · rw [(phrase_of_line ht hne hno hp hc).1]
      exact ho
  · intro ho
    exact .phrase (stripped_iff.2 rfl) hne hcomment (uncommented_iff.2 rfl) (stripped_iff.2 rfl) ho

/-- What is made of a line: it is read as a statement, or it is refused as a label with no name. -/
def Yields (file : String) (number : Int) (raw : String) : Option Statement → Prop
  | some st => ∃ l, Source.readLine file number raw = .ok l ∧ l.statement = st
  | none => Source.readLine file number raw =
      .error (.diagnostic (Source.namelessDiagnostic file number raw.toList))

section

variable {raw : String}

/-- Of a line that is read nothing is made but what it is read as. -/
theorem yields_of_readLine {file : String} {number : Int} {l : Line}
    (h : Source.readLine file number raw = .ok l) (o : Option Statement) :
    Yields file number raw o ↔ o = some l.statement := by
  cases o with
  | none =>
    unfold Yields
    rw [h]
    exact ⟨nofun, nofun⟩
  | some st =>
    constructor
    · rintro ⟨l', hl, rfl⟩
      obtain rfl := Except.ok.inj (h.symm.trans hl)
      rfl
    · intro ho
      exact ⟨l, h, (Option.some.inj ho).symm⟩

theorem readLine_of_blank (file : String) (number : Int) (h : Text.trim raw.toList = []) :
    ∃ l, Source.readLine file number raw = .ok l ∧ l.statement = .blank := by
  unfold Source.readLine
  dsimp only
  rw [h]
  exact ⟨_, rfl, rfl⟩

theorem readLine_of_comment (file : String) (number : Int) (hne : Text.trim raw.toList ≠ [])
    (h : Source.stripComment (Text.trim raw.toList) = []) :
    ∃ l, Source.readLine file number raw = .ok l ∧ l.statement = .comment := by
  unfold Source.readLine
  dsimp only
  rw [List.isEmpty_eq_false_iff.2 hne, h]
  exact ⟨_, rfl, rfl⟩

theorem yields_of_statement (file : String) (number : Int) {o : Option Statement}
    (hne : Source.stripComment (Text.trim raw.toList) ≠ [])
    (h : Source.statement (Source.stripComment (Text.trim raw.toList)) = .ok o)
    (o' : Option Statement) : Yields file number raw o' ↔ o' = o := by
  have htrim := trim_ne_nil hne
  cases o with
  | none =>
    have hread : Source.readLine file number raw =
        .error (.diagnostic (Source.namelessDiagnostic file number raw.toList)) := by
      have hcolon : Source.stripComment (Text.trim raw.toList) = [':'] :=
        (Source.statement_eq_none_iff (Text.trimmed_trim _)).1 h
      have hnameless : Source.isNameless raw.toList = true := beq_iff_eq.2 hcolon
      have hread := Source.readLine_of_nameless hnameless file number
      rwa [String.ofList_toList] at hread
    cases o' with
    | none => exact ⟨fun _ => rfl, fun _ => hread⟩
    | some st =>
      unfold Yields
      rw [hread]
      exact ⟨nofun, nofun⟩
  | some st =>
    have hread : ∃ l, Source.readLine file number raw = .ok l ∧ l.statement = st := by
      unfold Source.readLine
      dsimp only
      rw [List.isEmpty_eq_false_iff.2 htrim, List.isEmpty_eq_false_iff.2 hne, h]
      exact ⟨_, rfl, rfl⟩
    obtain ⟨l, hl, rfl⟩ := hread
    exact yields_of_readLine hl o'

/-- A line is made into one thing, and it is the one that the grammar gives it. -/
theorem exists_classified (file : String) (number : Int)
    (hruns : Text.DigitRuns maxDigits raw.toList) :
    ∃ o, ∀ o', (Yields file number raw o' ↔ o' = o) ∧ (Classified raw.toList o' ↔ o' = o) := by
  by_cases hblank : Text.trim raw.toList = []
  · obtain ⟨l, hl, hst⟩ := readLine_of_blank file number hblank
    exact ⟨some .blank, fun o' => ⟨hst ▸ yields_of_readLine hl o', classified_of_blank hblank⟩⟩
  · by_cases hcomment : Source.stripComment (Text.trim raw.toList) = []
    · obtain ⟨l, hl, hst⟩ := readLine_of_comment file number hblank hcomment
      exact ⟨some .comment, fun o' =>
        ⟨hst ▸ yields_of_readLine hl o', classified_of_comment hblank hcomment⟩⟩
    · have hcut : Source.stripComment (Text.trim raw.toList) <:+: raw.toList :=
        (Source.stripComment_isInfix _).trans (Text.trim_isInfix _)
      obtain ⟨o, ho⟩ := Source.statement_eq_ok (hruns.cut hcut)
      refine ⟨o, fun o' => ⟨yields_of_statement file number hcomment ho o', ?_⟩⟩
      rw [classified_of_phrase hruns hcomment, ho]
      exact ⟨fun h => (Except.ok.inj h).symm, fun h => congrArg Except.ok h.symm⟩

end

/-- The grammar gives every line without long runs of digits one thing to say, and it is what the line
    is read as. In a line that is neither blank nor a comment there is something to read, and what
    declares a variable does so in one way. -/
theorem readLine_grammar (file : String) (number : Int) {raw : String}
    (hruns : Text.DigitRuns maxDigits raw.toList) :
    (∀ o, Yields file number raw o ↔ Classified raw.toList o) ∧
      (∃! o, Classified raw.toList o) ∧
      (∀ t p c, Stripped raw.toList t → t ≠ [] → ¬ ['/', '/'] <+: t → Uncommented t p →
        Stripped p c → c ≠ []) ∧
      ∀ c n n' s s', Declares c n s → Declares c n' s' → n = n' ∧ s = s' := by
  obtain ⟨o, ho⟩ := exists_classified file number hruns
  refine ⟨fun o' => (ho o').1.trans (ho o').2.symm, ⟨o, (ho o).2.2 rfl, fun o' => (ho o').2.1⟩,
    fun t p c ht hne hno hp hc => (phrase_of_line ht hne hno hp hc).2,
    fun c n n' s s' h h' => h.unique h'⟩

/-- The grammar makes a declaration of a line with blanks and a comment in it. -/
theorem readLine_grammar_assigned :
    Text.DigitRuns maxDigits "  x =+007 // set".toList ∧
      Yields "" 1 "  x =+007 // set" (some (.variable "x" 7)) ∧
      Classified "  x =+007 // set".toList (some (.variable "x" 7)) := by
  have hruns : Text.DigitRuns maxDigits "  x =+007 // set".toList :=
    Text.digitRuns_of_length (by decide)
  have hyields : Yields "" 1 "  x =+007 // set" (some (.variable "x" 7)) := ⟨_, rfl, rfl⟩
  exact ⟨hruns, hyields, ((readLine_grammar "" 1 hruns).1 _).1 hyields⟩

end Grammar

end DecimalMachine
