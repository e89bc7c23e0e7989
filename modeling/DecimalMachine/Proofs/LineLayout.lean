import DecimalMachine.Proofs.Declarations
import DecimalMachine.Proofs.LetterCase
/-
  The layout of a line: its comment, the blanks around it and the spelling of its mnemonic. Comments
  and blanks are stripped (`stripComment_append`, `stripComment_append_left`), and what is left of an
  instruction is its mnemonic and a text that begins with a blank, if there is one (`Operates`). Another
  word takes the place of the mnemonic without a change to the rest of the line if comments, colons
  and declarations do not tell the two words apart (`Replaces`). The same letters in another case do
  so, and so do two spellings of one operation (`Respells.replaces`).
-/
namespace DecimalMachine

open Text (raised)

namespace Source

/-! ## Comments and blanks -/

/-- A comment begins in one of two texts, or in neither, unless it begins with the last character of
    the first. -/
theorem beforeComment_append (s : List Char) {t : List Char} (ht : t.head? ≠ some '/') :
    beforeComment (s ++ t) = beforeComment s ∨
      beforeComment s = s ∧ beforeComment (s ++ t) = s ++ beforeComment t := by
  fun_induction beforeComment s with
  | case1 r => exact .inl rfl
  | case2 c r h ih =>
    have hkeep : beforeComment (c :: r ++ t) = c :: beforeComment (r ++ t) := by
      rw [List.cons_append, beforeComment]
      intro u hc hu
      cases r with
      | nil => exact ht (congrArg List.head? hu)
      | cons d r =>
        obtain ⟨rfl, -⟩ := List.cons.inj hu
        exact h r hc rfl
    rw [hkeep]
    rcases ih with ih | ⟨hs, ih⟩
    · exact .inl (congrArg (c :: ·) ih)
    · exact .inr ⟨congrArg (c :: ·) hs, congrArg (c :: ·) ih⟩
  | case3 => exact .inr ⟨rfl, rfl⟩

theorem no_slash_of_blanks {b : List Char} (hb : ∀ c ∈ b, Text.isBlank c = true) : '/' ∉ b :=
  fun h => absurd (hb _ h) (by decide)

theorem beforeComment_of_blanks {b : List Char} (hb : ∀ c ∈ b, Text.isBlank c = true) :
    beforeComment b = b := beforeComment_of_not_mem (no_slash_of_blanks hb)

/-- Behind a line, blanks and comments do not count. -/
theorem stripComment_append (s : List Char) {t : List Char} (ht : t.head? ≠ some '/')
    (hb : ∀ c ∈ beforeComment t, Text.isBlank c = true) :
    stripComment (s ++ t) = stripComment s := by
  unfold stripComment
  rcases beforeComment_append s ht with h | ⟨hs, h⟩
  · rw [h]
  · have htrim := Text.trim_append_blanks (a := []) s nofun hb
    rw [h, hs]
    exact htrim

theorem beforeComment_append_left {a : List Char} (ha : '/' ∉ a) (s : List Char) :
    beforeComment (a ++ s) = a ++ beforeComment s := by
  induction a with
  | nil => rfl
  | cons c a ih =>
    rw [List.mem_cons, not_or] at ha
    rw [List.cons_append, beforeComment, ih ha.2]
    · rfl
    · rintro r rfl -
      exact ha.1 rfl

/-- In front of a line, blanks do not count. -/
theorem stripComment_append_left {a : List Char} (ha : ∀ c ∈ a, Text.isBlank c = true)
    (s : List Char) : stripComment (a ++ s) = stripComment s := by
  have htrim := Text.trim_append_blanks (b := []) (beforeComment s) ha nofun
  rw [List.append_nil] at htrim
  unfold stripComment
  rw [beforeComment_append_left (no_slash_of_blanks ha), htrim]

theorem stripComment_append_blanks (s : List Char) {b : List Char}
    (hb : ∀ c ∈ b, Text.isBlank c = true) : stripComment (s ++ b) = stripComment s :=
  stripComment_append s (fun h => no_slash_of_blanks hb (List.mem_of_mem_head? h))
    ((beforeComment_of_blanks hb).symm ▸ hb)

theorem stripComment_trim (s : List Char) : stripComment (Text.trim s) = stripComment s := by
  obtain ⟨a, b, hs, ha, hb⟩ := Text.exists_blanks s
  conv_rhs => rw [hs]
  rw [stripComment_append_blanks _ hb, stripComment_append_left ha]

/-- Nothing but blanks stands in the line, or blanks and a comment. -/
def Silent (raw : List Char) : Prop :=
  (∀ c ∈ raw, Text.isBlank c = true) ∨ ['/', '/'] <+: Text.trimLeft raw

instance (raw : List Char) : Decidable (Silent raw) := inferInstanceAs (Decidable (_ ∨ _))

theorem stripComment_of_silent {raw : List Char} (h : Silent raw) : stripComment raw = [] := by
  rcases h with h | ⟨t, ht⟩
  · unfold stripComment
    rw [beforeComment_of_blanks h]
    exact Text.trim_eq_nil.2 h
  · have hraw : raw.takeWhile Text.isBlank ++ Text.trimLeft raw = raw :=
      List.takeWhile_append_dropWhile
    rw [← hraw, stripComment_append_left fun _ => List.mem_takeWhile_imp, ← ht]
    rfl

/-! ## Instructions -/

/-- The text is a mnemonic, and behind it nothing or a blank and more; it has not the form of a label
    or of a declaration. -/
structure Operates (m t : List Char) : Prop where
  ne_nil : m ≠ []
  not_blank : ∀ c ∈ m, Text.isBlank c = false
  apart : ∀ c ∈ t.head?, Text.isBlank c = true
  not_label : (m ++ t).getLast? ≠ some ':'
  not_declaration : variableOf? (m ++ t) = none

theorem Operates.statement {m t : List Char} (h : Operates m t) : statement (m ++ t) =
    .ok (some (.instruction (String.ofList m) ((Text.words t).head?.map String.ofList)
      ((Text.words t).tail.map String.ofList))) := by
  unfold Source.statement
  rw [if_neg h.not_label, h.not_declaration, Text.words_append h.ne_nil h.not_blank h.apart]
  rfl

theorem operates_of_statement {s : List Char} (hne : s ≠ []) (hs : Text.Trimmed s) {m : List Char}
    {operand : Option String} {extra : List String}
    (h : statement s = .ok (some (.instruction (String.ofList m) operand extra))) :
    ∃ t, s = m ++ t ∧ Operates m t := by
  have hcut : s.takeWhile (!Text.isBlank ·) ++ s.dropWhile (!Text.isBlank ·) = s :=
    List.takeWhile_append_dropWhile
  have hfirst : s.takeWhile (!Text.isBlank ·) ≠ [] := by
    obtain ⟨c, r, rfl⟩ := List.exists_cons_of_ne_nil hne
    rw [List.takeWhile_cons_of_pos (by simpa using hs.1 c rfl)]
    exact List.cons_ne_nil _ _
  have hblank : ∀ c ∈ s.takeWhile (!Text.isBlank ·), Text.isBlank c = false :=
    fun c hc => by simpa using List.mem_takeWhile_imp hc
  have hapart : ∀ c ∈ (s.dropWhile (!Text.isBlank ·)).head?, Text.isBlank c = true := by
    intro c hc
    have hd := List.head?_dropWhile_not (!Text.isBlank ·) s
    rw [hc] at hd
    simpa using hd
  have hwords := Text.words_append hfirst hblank hapart
  rw [hcut] at hwords
  unfold statement at h
  split at h
  · dsimp only at h
    split at h <;> cases h
  · rename_i hlabel
    split at h
    · rw [statementOfDeclaration_eq] at h
      rename_i d _
      cases hv : d.value <;> rw [hv] at h <;> cases h
    · rename_i hdecl
      rw [hwords] at h
      injection h with h
      injection h with h
      injection h with hm
      have hm : s.takeWhile (!Text.isBlank ·) = m := String.ofList_injective hm
      rw [hm] at hcut hfirst hblank
      rw [← hcut] at hlabel hdecl
      exact ⟨_, hcut.symm, hfirst, hblank, hapart, hlabel, hdecl⟩

/-! ## Other mnemonics -/

/-- A word takes the place of another in front of any text, and nothing else changes for that. -/
structure Replaces (m m' : List Char) : Prop where
  ne_nil : m' ≠ []
  not_blank : ∀ c ∈ m', Text.isBlank c = false
  operation : Opcode.ofMnemonic? (String.ofList m') = Opcode.ofMnemonic? (String.ofList m)
  comment : ∀ {r r₁}, beforeComment (m ++ r) = m ++ r₁ → beforeComment (m' ++ r) = m' ++ r₁
  label : ∀ {t}, (m ++ t).getLast? ≠ some ':' → (m' ++ t).getLast? ≠ some ':'
  declaration : ∀ {t}, (∀ c ∈ t.head?, Text.isBlank c = true) →
    variableOf? (m ++ t) = none → variableOf? (m' ++ t) = none

theorem Operates.replace {m m' t : List Char} (h : Operates m t) (hm : Replaces m m') :
    Operates m' t where
  ne_nil := hm.ne_nil
  not_blank := hm.not_blank
  apart := h.apart
  not_label := hm.label h.not_label
  not_declaration := hm.declaration h.apart h.not_declaration

/-- The end of a text does not depend on the word at its front. -/
theorem trimmed_replace {m m' t : List Char} (h : Text.Trimmed (m ++ t)) (hne : m' ≠ [])
    (hb : ∀ c ∈ m', Text.isBlank c = false) : Text.Trimmed (m' ++ t) := by
  have hword := Text.trimmed_of_not_blank hb
  constructor
  · intro c hc
    rw [List.head?_append_of_ne_nil _ hne] at hc
    exact hword.1 c hc
  · intro c hc
    by_cases ht : t = []
    · rw [ht, List.append_nil] at hc
      exact hword.2 c hc
    · refine h.2 c ?_
      rwa [List.getLast?_append_of_ne_nil _ ht] at hc ⊢

/-- What a line holds in front of its comment begins with its mnemonic, but for blanks, and ends with
    the rest of the instruction, but for blanks. -/
theorem beforeComment_of_operates {m r t : List Char} (h : Operates m t)
    (hs : stripComment (m ++ r) = m ++ t) :
    ∃ b, beforeComment (m ++ r) = m ++ (t ++ b) ∧ ∀ c ∈ b, Text.isBlank c = true := by
  obtain ⟨x, b, hcut, hx, hb⟩ := Text.exists_blanks (beforeComment (m ++ r))
  rw [show Text.trim (beforeComment (m ++ r)) = m ++ t from hs] at hcut
  cases x with
  | nil => exact ⟨b, by rw [hcut, List.nil_append, List.append_assoc], hb⟩
  | cons c x =>
    obtain ⟨u, hu⟩ := beforeComment_isPrefix (m ++ r)
    obtain ⟨d, m, rfl⟩ := List.exists_cons_of_ne_nil h.ne_nil
    rw [hcut] at hu
    obtain ⟨rfl, -⟩ := List.cons.inj hu
    have hblank := hx c List.mem_cons_self
    rw [h.not_blank c List.mem_cons_self] at hblank
    cases hblank

/-- A line with an instruction, and the line with another word for its mnemonic. -/
theorem stripComment_replace {m m' : List Char} (hm : Replaces m m') {a r t : List Char}
    (ha : ∀ c ∈ a, Text.isBlank c = true) (h : Operates m t)
    (hs : stripComment (a ++ (m ++ r)) = m ++ t) : stripComment (a ++ (m' ++ r)) = m' ++ t := by
  rw [stripComment_append_left ha] at hs ⊢
  obtain ⟨b, hbefore, hb⟩ := beforeComment_of_operates h hs
  have hline : Text.Trimmed (stripComment (m ++ r)) := Text.trimmed_trim _
  have htrimmed := trimmed_replace (hs ▸ hline) hm.ne_nil hm.not_blank
  have htrim := Text.trim_append_blanks (a := []) (m' ++ t) nofun hb
  unfold stripComment
  rw [hm.comment hbefore, ← List.append_assoc]
  exact htrim.trans (Text.trim_of_trimmed htrimmed)

/-! ## Letter case and aliases -/

/-- Two spellings: the same letters in upper or lower case, or two names of one operation. -/
inductive Respells (m m' : List Char) : Prop
  | case (h : raised m = raised m')
  | operation (op : Opcode) (h : String.ofList (raised m) ∈ op.mnemonics)
      (h' : String.ofList (raised m') ∈ op.mnemonics)

section

variable {m m' : List Char}

theorem replaces_of_case (hne : m ≠ []) (hb : ∀ c ∈ m, Text.isBlank c = false)
    (h : raised m = raised m') : Replaces m m' where
  ne_nil hnil := hne (Text.raised_eq_nil.1 (h.trans (Text.raised_eq_nil.2 hnil)))
  not_blank := by
    have hall : m'.all (!Text.isBlank ·) = true := by
      have hkeep : ∀ c : Char, (!Text.isBlank c.toUpper) = !Text.isBlank c := fun c => by
        rw [Text.isBlank_toUpper]
      rw [← Text.all_raised hkeep, ← h, Text.all_raised hkeep]
      simpa using hb
    simpa using hall
  operation := by rw [← Opcode.ofMnemonic?_raised m', ← h, Opcode.ofMnemonic?_raised]
  comment := by
    intro r r₁ hm
    -- Both are front parts of one line, and there is as much of them.
    have hmap : raised (beforeComment (m' ++ r)) = raised (m' ++ r₁) := by
      rw [← beforeComment_raised, Text.raised_append, ← h, ← Text.raised_append,
        beforeComment_raised, hm, Text.raised_append, h, ← Text.raised_append]
    have hlen : (beforeComment (m' ++ r)).length = (m' ++ r₁).length := by
      simpa only [Text.length_raised] using congrArg List.length hmap
    have hrest : r₁ <+: r := (List.prefix_append_right_inj m).1 (hm ▸ beforeComment_isPrefix _)
    have hpre : beforeComment (m' ++ r) <+: m' ++ r₁ :=
      List.prefix_of_prefix_length_le (beforeComment_isPrefix _)
        ((List.prefix_append_right_inj m').2 hrest) hlen.le
    exact hpre.eq_of_length hlen
  label := by
    intro t hm hm'
    refine hm ?_
    rw [← Text.getLast?_raised (Text.toUpper_eq_mark (by decide)), Text.raised_append] at hm' ⊢
    rwa [h]
  declaration := by
    intro t _ hm
    have hmap := variableOf?_raised (m ++ t)
    rw [hm, Text.raised_append, h, ← Text.raised_append, variableOf?_raised] at hmap
    exact Option.map_eq_none_iff.1 hmap

theorem isName_of_mnemonic {m : List Char} {op : Opcode}
    (h : String.ofList (raised m) ∈ op.mnemonics) :
    isName m = true ∧ Opcode.ofMnemonic? (String.ofList m) = some op := by
  constructor
  · rw [← isName_raised, ← String.toList_ofList (l := raised m)]
    exact Opcode.isName_of_mem h
  · rw [← Opcode.ofMnemonic?_raised]
    exact Opcode.ofMnemonic?_of_mem h

/-- Behind a name that is a mnemonic, only an equals sign makes a declaration, and it does so behind
    every name. -/
theorem variableOf?_of_mnemonic {x x' t : List Char} (hx : isName x = true) (hx' : isName x' = true)
    (hm : Opcode.isMnemonic (String.ofList x') = true) (ht : ∀ c ∈ t.head?, Text.isBlank c = true)
    (h : variableOf? (x ++ t) = none) : variableOf? (x' ++ t) = none := by
  have hsplit := splitName_append hx ht
  have hsplit' := splitName_append hx' ht
  have hname : isName (splitName (x ++ t)).1 = true := by rw [hsplit, hx]
  have hname' : isName (splitName (x' ++ t)).1 = true := by rw [hsplit', hx']
  have hbehind : Text.trimLeft (splitName (x' ++ t)).2 = Text.trimLeft (splitName (x ++ t)).2 := by
    rw [hsplit, hsplit']
  unfold variableOf? at h ⊢
  cases hb : Text.trimLeft (splitName (x ++ t)).2 with
  | nil =>
    rw [declaration?_of_nil hname' (hbehind.trans hb), hsplit']
    split
    · rw [Option.filter_some, Declaration.isVariable, hm]
      rfl
    · rfl
  | cons c value =>
    by_cases hc : c = '='
    · subst hc
      rw [declaration?_of_equals hname hb] at h
      rw [declaration?_of_equals hname' (hbehind.trans hb)]
      split at h
      · cases h
      · rename_i hnum
        rw [if_neg hnum]
        rfl
    · rw [declaration?_of_cons hname' (hbehind.trans hb) hc, hsplit']
      split
      · rw [Option.filter_some, Declaration.isVariable, hm]
        rfl
      · rfl

theorem replaces_of_operation {op : Opcode} (h : String.ofList (raised m) ∈ op.mnemonics)
    (h' : String.ofList (raised m') ∈ op.mnemonics) : Replaces m m' := by
  obtain ⟨hname, hop⟩ := isName_of_mnemonic h
  obtain ⟨hname', hop'⟩ := isName_of_mnemonic h'
  obtain ⟨hne, hrest, hblank⟩ := of_isName hname'
  have hslash : ∀ {x : List Char}, isName x = true → '/' ∉ x := by
    intro x hx hmem
    cases List.all_eq_true.1 (of_isName hx).2.1 _ hmem
  refine ⟨hne, hblank, hop'.trans hop.symm, fun hm => ?_, fun hm => ?_, fun ht hm => ?_⟩
  · rw [beforeComment_append_left (hslash hname)] at hm
    rw [beforeComment_append_left (hslash hname'), List.append_cancel_left hm]
  · rename_i t
    by_cases ht : t = []
    · rw [ht, List.append_nil]
      intro hlast
      cases List.all_eq_true.1 hrest _ (List.mem_of_mem_getLast? hlast)
    · rwa [List.getLast?_append_of_ne_nil _ ht] at hm ⊢
  · have hmnemonic : Opcode.isMnemonic (String.ofList m') = true := by
      unfold Opcode.isMnemonic
      rw [hop']
      rfl
    exact variableOf?_of_mnemonic hname hname' hmnemonic ht hm

end

theorem Respells.replaces {m m' : List Char} (h : Respells m m') (hne : m ≠ [])
    (hb : ∀ c ∈ m, Text.isBlank c = false) : Replaces m m' := by
  cases h with
  | case h => exact replaces_of_case hne hb h
  | operation op h h' => exact replaces_of_operation h h'

end Source

end DecimalMachine
