import Mathlib.Data.List.DropRight
import DecimalMachine.Proofs.Numerals
import DecimalMachine.Text.Lines
/-
  Cutting texts: what trimming, words and lines leave of a text. A text is its trimmed form between
  two runs of blanks (`exists_blanks`). Words are cut at every blank (`words_append_blank`), and
  lines at every line feed (`lines_append_newline`); so lines written one below the other are read
  back as they are (`lines_intercalate`, `lines_intercalate_of_getLast`). No cut makes a character or
  changes their order: what it leaves are infixes of the text.
-/
namespace DecimalMachine.Text

-- Statements about the letters of a text are decided on the text, and not on all characters there
-- are.
instance decidableForallMem (s : List Char) (P : Char → Prop) [DecidablePred P] :
    Decidable (∀ c ∈ s, P c) :=
  List.decidableBAll P s

instance decidableForallMem? (o : Option Char) (P : Char → Prop) [DecidablePred P] :
    Decidable (∀ c ∈ o, P c) :=
  Option.decidableForallMem o

/-- A text is cut in one way at the first of some character. -/
theorem cut_unique {c : Char} {a b r s : List Char} (ha : c ∉ a) (hb : c ∉ b)
    (h : a ++ c :: r = b ++ c :: s) : a = b ∧ r = s := by
  induction a generalizing b with
  | nil =>
    cases b with
    | nil => exact ⟨rfl, (List.cons.inj h).2⟩
    | cons d b =>
      obtain ⟨rfl, -⟩ := List.cons.inj h
      exact absurd List.mem_cons_self hb
  | cons d a ih =>
    cases b with
    | nil =>
      obtain ⟨rfl, -⟩ := List.cons.inj h
      exact absurd List.mem_cons_self ha
    | cons e b =>
      obtain ⟨rfl, hrest⟩ := List.cons.inj h
      obtain ⟨rfl, rfl⟩ := ih (fun hm => ha (List.mem_cons_of_mem d hm))
        (fun hm => hb (List.mem_cons_of_mem d hm)) hrest
      exact ⟨rfl, rfl⟩

/-! ## Trimming -/

/-- No blank stands at either end. -/
def Trimmed (s : List Char) : Prop :=
  (∀ c ∈ s.head?, isBlank c = false) ∧ ∀ c ∈ s.getLast?, isBlank c = false

instance (s : List Char) : Decidable (Trimmed s) := inferInstanceAs (Decidable (_ ∧ _))

theorem trimmed_of_not_blank {s : List Char} (h : ∀ c ∈ s, isBlank c = false) : Trimmed s :=
  ⟨fun c hc => h c (List.mem_of_mem_head? hc), fun c hc => h c (List.mem_of_mem_getLast? hc)⟩

theorem trimLeft_of_head {s : List Char} (h : ∀ c ∈ s.head?, isBlank c = false) :
    trimLeft s = s := by
  cases s with
  | nil => rfl
  | cons c r =>
    unfold trimLeft
    rw [List.dropWhile_cons, h c rfl]
    rfl

theorem trimRight_eq (s : List Char) : trimRight s = s.rdropWhile isBlank := rfl

theorem trimRight_of_getLast {s : List Char} (h : ∀ c ∈ s.getLast?, isBlank c = false) :
    trimRight s = s := by
  rw [trimRight_eq, List.rdropWhile_eq_self_iff]
  intro hs
  rw [h _ (List.getLast?_eq_some_getLast hs)]
  decide

theorem trim_of_trimmed {s : List Char} (h : Trimmed s) : trim s = s := by
  unfold trim
  rw [trimLeft_of_head h.1, trimRight_of_getLast h.2]

/-- What is trimmed away at the end are blanks. -/
theorem exists_trimRight (s : List Char) :
    ∃ b, s = trimRight s ++ b ∧ ∀ c ∈ b, isBlank c = true :=
  ⟨s.rtakeWhile isBlank, List.rdropWhile_append_rtakeWhile.symm, fun _ => List.mem_rtakeWhile_imp⟩

/-- The text before its trimmed form, and the text behind it, are blanks. -/
theorem exists_blanks (s : List Char) :
    ∃ a b, s = a ++ trim s ++ b ∧ (∀ c ∈ a, isBlank c = true) ∧ ∀ c ∈ b, isBlank c = true := by
  obtain ⟨b, hs, hb⟩ := exists_trimRight (trimLeft s)
  refine ⟨s.takeWhile isBlank, b, ?_, fun c hc => List.mem_takeWhile_imp hc, hb⟩
  unfold trim
  rw [List.append_assoc, ← hs]
  exact List.takeWhile_append_dropWhile.symm

theorem trimLeft_append_blank {a : List Char} (s : List Char) (h : ∀ c ∈ a, isBlank c = true) :
    trimLeft (a ++ s) = trimLeft s := by
  unfold trimLeft
  exact List.dropWhile_append_of_pos h

theorem trimLeft_eq_nil {s : List Char} : trimLeft s = [] ↔ ∀ c ∈ s, isBlank c = true :=
  List.dropWhile_eq_nil_iff

theorem trimmed_trim (s : List Char) : Trimmed (trim s) := by
  have hpre : trim s <+: trimLeft s := List.rdropWhile_prefix isBlank _
  constructor
  · intro c hc
    have hl : c ∈ (trimLeft s).head? := by
      obtain ⟨t, ht⟩ := hpre
      rw [← ht]
      exact List.mem_head?_append_of_mem_head? hc
    have hd := List.head?_dropWhile_not isBlank s
    unfold trimLeft at hl
    rw [hl] at hd
    simpa using hd
  · intro c hc
    obtain ⟨hne, rfl⟩ := List.mem_getLast?_eq_getLast hc
    have hl := List.rdropWhile_last_not isBlank (trimLeft s) hne
    exact Bool.eq_false_iff.2 hl

theorem trim_isInfix (s : List Char) : trim s <:+: s := by
  obtain ⟨a, b, hs, -, -⟩ := exists_blanks s
  exact ⟨a, b, hs.symm⟩

theorem trimLeft_isInfix (s : List Char) : trimLeft s <:+: s :=
  (List.dropWhile_suffix isBlank).isInfix

theorem trim_eq_nil {s : List Char} : trim s = [] ↔ ∀ c ∈ s, isBlank c = true := by
  constructor
  · intro h
    obtain ⟨a, b, hs, ha, hb⟩ := exists_blanks s
    rw [hs, h, List.append_nil]
    exact fun c hc => (List.mem_append.1 hc).elim (ha c) (hb c)
  · intro h
    unfold trim
    rw [trimLeft_eq_nil.2 h]
    rfl

/-- Blanks around a text are trimmed away. -/
theorem trim_append_blanks {a b : List Char} (s : List Char) (ha : ∀ c ∈ a, isBlank c = true)
    (hb : ∀ c ∈ b, isBlank c = true) : trim (a ++ s ++ b) = trim s := by
  unfold trim
  rw [List.append_assoc, trimLeft_append_blank _ ha]
  by_cases hs : trimLeft s = []
  · have hall := trimLeft_eq_nil.1 hs
    rw [trimLeft_append_blank b hall, hs, trimLeft_eq_nil.2 hb]
  · have hkeep : trimLeft (s ++ b) = trimLeft s ++ b := by
      unfold trimLeft at hs ⊢
      rw [List.dropWhile_append, if_neg (by simpa using hs)]
    have hrev : ∀ c ∈ b.reverse, isBlank c = true := fun c hc => hb c (List.mem_reverse.1 hc)
    unfold trimRight
    rw [hkeep, List.reverse_append, List.dropWhile_append_of_pos hrev]

/-! ## Words -/

theorem wordsFrom_append_blank {c : Char} (hc : isBlank c = true) (w s r : List Char) :
    wordsFrom w (s ++ c :: r) = wordsFrom w s ++ words r := by
  induction s generalizing w with
  | nil =>
    by_cases hw : w.isEmpty <;> simp [wordsFrom, words, hc, hw]
  | cons d s ih =>
    rw [List.cons_append, wordsFrom, wordsFrom, ih, ih]
    by_cases hd : isBlank d
    · by_cases hw : w.isEmpty <;> simp [hd, hw]
    · simp [hd]

/-- Words are cut at a blank. Everything else about words of longer texts follows from this. -/
theorem words_append_blank {c : Char} (hc : isBlank c = true) (s r : List Char) :
    words (s ++ c :: r) = words s ++ words r := wordsFrom_append_blank hc [] s r

theorem wordsFrom_of_not_blank {w s : List Char} (h : ∀ c ∈ s, isBlank c = false) :
    wordsFrom w s = wordsFrom (s.reverse ++ w) [] := by
  induction s generalizing w with
  | nil => rfl
  | cons c r ih =>
    have hc := h c List.mem_cons_self
    have hr : ∀ d ∈ r, isBlank d = false := fun d hd => h d (List.mem_cons_of_mem c hd)
    have hcons : wordsFrom w (c :: r) = wordsFrom (c :: w) r := by simp [wordsFrom, hc]
    rw [hcons, ih hr, List.reverse_cons, List.append_assoc]
    rfl

/-- A text without blanks is one word. -/
theorem words_of_not_blank {s : List Char} (hs : s ≠ []) (h : ∀ c ∈ s, isBlank c = false) :
    words s = [s] := by
  unfold words
  rw [wordsFrom_of_not_blank h, wordsFrom]
  simp [hs]

theorem words_append_left {a : List Char} (h : ∀ c ∈ a, isBlank c = true) (s : List Char) :
    words (a ++ s) = words s := by
  induction a with
  | nil => rfl
  | cons c a ih =>
    obtain ⟨hc, ha⟩ := List.forall_mem_cons.1 h
    rw [List.cons_append, words_cons_blank hc, ih ha]

theorem words_of_blanks {b : List Char} (h : ∀ c ∈ b, isBlank c = true) : words b = [] := by
  have hwords := words_append_left h []
  rwa [List.append_nil] at hwords

/-- A word ends at a blank. -/
theorem words_append {m t : List Char} (hm : m ≠ []) (hb : ∀ c ∈ m, isBlank c = false)
    (ht : ∀ c ∈ t.head?, isBlank c = true) : words (m ++ t) = m :: words t := by
  cases t with
  | nil =>
    rw [List.append_nil]
    exact words_of_not_blank hm hb
  | cons c t =>
    have hc := ht c rfl
    rw [words_append_blank hc, words_cons_blank hc, words_of_not_blank hm hb]
    rfl

/-- There is no word in the blanks at the end of a text. -/
theorem words_trimRight (s : List Char) : words (trimRight s) = words s := by
  obtain ⟨b, hs, hb⟩ := exists_trimRight s
  conv_rhs => rw [hs]
  cases b with
  | nil => rw [List.append_nil]
  | cons c b =>
    obtain ⟨hc, hb⟩ := List.forall_mem_cons.1 hb
    rw [words_append_blank hc, words_of_blanks hb, List.append_nil]

theorem mem_wordsFrom {w s x : List Char} (h : x ∈ wordsFrom w s)
    (hw : ∀ c ∈ w, isBlank c = false) :
    (∀ c ∈ x, isBlank c = false) ∧ x <:+: w.reverse ++ s := by
  induction s generalizing w with
  | nil =>
    rw [wordsFrom] at h
    by_cases hempty : w.isEmpty
    · simp [hempty] at h
    · simp only [hempty] at h
      obtain rfl := List.mem_singleton.1 h
      exact ⟨fun c hc => hw c (List.mem_reverse.1 hc), List.append_nil _ ▸ List.infix_rfl⟩
  | cons c r ih =>
    have hrest : x ∈ wordsFrom [] r →
        (∀ c ∈ x, isBlank c = false) ∧ x <:+: w.reverse ++ c :: r := fun hx => by
      obtain ⟨hb, hi⟩ := ih hx (List.forall_mem_nil _)
      exact ⟨hb, hi.trans ⟨w.reverse ++ [c], [], by simp⟩⟩
    rw [wordsFrom] at h
    by_cases hc : isBlank c
    · rw [if_pos hc] at h
      by_cases hempty : w.isEmpty
      · rw [if_pos hempty] at h
        exact hrest h
      · rw [if_neg hempty] at h
        rcases List.mem_cons.1 h with rfl | h
        · exact ⟨fun c hc => hw c (List.mem_reverse.1 hc), (List.prefix_append _ _).isInfix⟩
        · exact hrest h
    · rw [if_neg hc] at h
      have hw' : ∀ d ∈ c :: w, isBlank d = false := fun d hd => by
        rcases List.mem_cons.1 hd with rfl | hd
        · exact Bool.eq_false_iff.2 hc
        · exact hw d hd
      have hx := ih h hw'
      rw [List.reverse_cons, List.append_assoc] at hx
      exact hx

theorem infix_of_mem_words {s x : List Char} (h : x ∈ words s) : x <:+: s :=
  (mem_wordsFrom h nofun).2

theorem words_ne_nil {s : List Char} {c : Char} (hs : c ∈ s) (hc : isBlank c = false) :
    words s ≠ [] := by
  have hgen : ∀ w : List Char, w ≠ [] ∨ c ∈ s → wordsFrom w s ≠ [] := by
    clear hs
    induction s with
    | nil => intro w hw; simp_all [wordsFrom]
    | cons d r ih =>
      intro w hw
      rw [wordsFrom]
      by_cases hd : isBlank d
      · rw [if_pos hd]
        by_cases hempty : w.isEmpty
        · rw [if_pos hempty]
          refine ih [] (.inr ?_)
          rcases hw with hw | hw
          · simp_all
          · rcases List.mem_cons.1 hw with rfl | hw
            · rw [hc] at hd; cases hd
            · exact hw
        · rw [if_neg hempty]
          exact List.cons_ne_nil _ _
      · rw [if_neg hd]
        exact ih (d :: w) (.inl (List.cons_ne_nil _ _))
  exact hgen [] (.inr hs)

/-- A trimmed text that is one word has no blanks. -/
theorem not_blank_of_length_words {s : List Char} (ht : Trimmed s) (h : (words s).length = 1) :
    ∀ c ∈ s, isBlank c = false := by
  intro c hc
  refine Bool.eq_false_iff.2 fun hb => ?_
  obtain ⟨a, r, rfl⟩ := List.append_of_mem hc
  rw [words_append_blank hb, List.length_append] at h
  have ha : words a ≠ [] := by
    cases a with
    | nil => rw [ht.1 c rfl] at hb; cases hb
    | cons d a => exact words_ne_nil List.mem_cons_self (ht.1 d rfl)
  have hr : words r ≠ [] := by
    cases hlast : r.getLast? with
    | none =>
      obtain rfl := List.getLast?_eq_none_iff.1 hlast
      rw [ht.2 c (by simp)] at hb
      cases hb
    | some d =>
      refine words_ne_nil (List.mem_of_mem_getLast? hlast) (ht.2 d ?_)
      simp [List.getLast?_append, List.getLast?_cons, hlast]
  have hla := List.length_pos_of_ne_nil ha
  have hlr := List.length_pos_of_ne_nil hr
  omega

/-! ## Lines -/

theorem isBlank_of_isLineBreak {c : Char} (h : isLineBreak c = true) : isBlank c = true := by
  simp only [isLineBreak, Bool.or_eq_true, Bool.and_eq_true, decide_eq_true_eq,
    beq_iff_eq] at h
  simp only [isBlank, Bool.or_eq_true, Bool.and_eq_true, decide_eq_true_eq, beq_iff_eq]
  omega

theorem not_lineBreak_of_not_blank {c : Char} (h : isBlank c = false) : isLineBreak c = false :=
  Bool.eq_false_iff.2 fun hb => by rw [isBlank_of_isLineBreak hb] at h; cases h

/-- There is no line break in a text. -/
abbrev OneLine (s : List Char) : Prop := ∀ c ∈ s, isLineBreak c = false

theorem oneLine_of_not_blank {s : List Char} (h : ∀ c ∈ s, isBlank c = false) : OneLine s :=
  fun c hc => not_lineBreak_of_not_blank (h c hc)

theorem OneLine.append {s t : List Char} (hs : OneLine s) (ht : OneLine t) : OneLine (s ++ t) := by
  intro c hc
  rcases List.mem_append.1 hc with hc | hc
  · exact hs c hc
  · exact ht c hc

theorem oneLine_blanks (n : Nat) : OneLine (blanks n) := by
  intro c hc
  obtain rfl := List.eq_of_mem_replicate hc
  decide

theorem oneLine_toDigits (n : Nat) : OneLine (Nat.toDigits 10 n) :=
  oneLine_of_not_blank fun _ hc =>
    isBlank_of_isDigit (Nat.isDigit_of_mem_toDigits (by decide) (by decide) hc)

theorem oneLine_zeroPad (width n : Nat) : OneLine (zeroPad width n) :=
  oneLine_of_not_blank fun _ => not_blank_of_mem_zeroPad

theorem oneLine_zeroPadInt (width : Nat) (n : Int) : OneLine (zeroPadInt width n) := by
  unfold zeroPadInt
  split
  · exact List.forall_mem_cons.2 ⟨by decide, oneLine_zeroPad _ _⟩
  · exact oneLine_zeroPad _ _

theorem oneLine_padded (width : Nat) (n : Int) : OneLine (padded width n) :=
  oneLine_of_not_blank fun _ => not_blank_of_mem_padded

theorem oneLine_toString (n : Int) : OneLine (toString n).toList := by
  rw [toList_toString]
  exact oneLine_padded 0 n

theorem OneLine.trimRight {s : List Char} (h : OneLine s) : OneLine (trimRight s) :=
  fun c hc => h c ((List.rdropWhile_prefix isBlank s).subset hc)

theorem OneLine.padLeft {s : List Char} (h : OneLine s) (width : Nat) : OneLine (padLeft width s) :=
  (oneLine_blanks _).append h

theorem OneLine.padRight {s : List Char} (h : OneLine s) (width : Nat) : OneLine (padRight width s) :=
  h.append (oneLine_blanks _)

theorem linesFrom_cons {c : Char} (hc : isLineBreak c = false) (l r : List Char) :
    linesFrom l (c :: r) = linesFrom (c :: l) r := by
  rw [linesFrom]
  · simp [hc]
  · rintro _ rfl -
    exact absurd hc (by decide)

theorem linesFrom_append {a : List Char} (ha : ∀ c ∈ a, isLineBreak c = false) (l r : List Char) :
    linesFrom l (a ++ r) = linesFrom (a.reverse ++ l) r := by
  induction a generalizing l with
  | nil => rfl
  | cons c a ih =>
    rw [List.cons_append, linesFrom_cons (ha c List.mem_cons_self),
      ih fun d hd => ha d (List.mem_cons_of_mem c hd)]
    simp

theorem linesFrom_newline (l r : List Char) : linesFrom l ('\n' :: r) = l.reverse :: lines r := by
  rw [linesFrom]
  · rfl
  · rintro _ h -
    exact absurd h (by decide)

/-- A carriage return in front of a line feed belongs to the same break. -/
theorem linesFrom_cons_append {c : Char} {t : List Char}
    (ht : ∀ u, c = '\r' → t = '\n' :: u → False) (hne : c = '\r' → t ≠ []) (l r : List Char) :
    linesFrom l (c :: (t ++ r)) =
      if isLineBreak c then l.reverse :: lines (t ++ r) else linesFrom (c :: l) (t ++ r) := by
  rw [linesFrom]
  · rfl
  · intro u hc hu
    cases t with
    | nil => exact hne hc rfl
    | cons d t =>
      obtain ⟨rfl, -⟩ := List.cons.inj hu
      exact ht t hc rfl

theorem linesFrom_append_newline (l s r : List Char) :
    linesFrom l (s ++ '\n' :: r) = linesFrom l (s ++ ['\n']) ++ lines r := by
  fun_induction linesFrom l s with
  | case1 l h => simp [linesFrom_newline, lines_nil]
  | case2 l h => simp [linesFrom_newline, lines_nil]
  | case3 l t ih => simp [linesFrom, ih]
  | case4 l c t hcr hc ih =>
    by_cases hne : c = '\r' ∧ t = []
    · obtain ⟨rfl, rfl⟩ := hne
      simp [linesFrom, lines]
    · have hne' : c = '\r' → t ≠ [] := fun h ht => hne ⟨h, ht⟩
      rw [List.cons_append, List.cons_append, linesFrom_cons_append hcr hne',
        linesFrom_cons_append hcr hne', if_pos hc, if_pos hc]
      exact congrArg (l.reverse :: ·) ih
  | case5 l c t hcr hc ih =>
    have hc : isLineBreak c = false := Bool.eq_false_iff.2 hc
    rw [List.cons_append, List.cons_append, linesFrom_cons hc, linesFrom_cons hc, ih]

/-- Lines are cut at a line feed. -/
theorem lines_append_newline (s r : List Char) :
    lines (s ++ '\n' :: r) = lines (s ++ ['\n']) ++ lines r := linesFrom_append_newline [] s r

theorem lines_cons_newline {s : List Char} (hs : ∀ c ∈ s, isLineBreak c = false)
    (r : List Char) : lines (s ++ '\n' :: r) = s :: lines r := by
  unfold lines
  rw [linesFrom_append hs, linesFrom_newline]
  simp [lines]

/-- Lines that are written one below the other are read back. -/
theorem lines_intercalate {ls : List (List Char)} (hne : ls ≠ [])
    (h : ∀ l ∈ ls, ∀ c ∈ l, isLineBreak c = false) :
    lines (['\n'].intercalate ls ++ ['\n']) = ls := by
  induction ls with
  | nil => exact absurd rfl hne
  | cons l ls ih =>
    have hl := h l List.mem_cons_self
    cases ls with
    | nil =>
      rw [List.intercalate_singleton, lines_cons_newline hl, lines_nil]
    | cons m ls =>
      rw [List.intercalate_cons_cons, List.append_assoc, List.append_assoc, List.singleton_append,
        lines_cons_newline hl, ih (List.cons_ne_nil m ls) fun k hk => h k (List.mem_cons_of_mem l hk)]

/-- No line break is needed behind a line with something in it. -/
theorem lines_of_oneLine {l : List Char} (hne : l ≠ []) (hl : OneLine l) : lines l = [l] := by
  unfold lines
  rw [← List.append_nil l, linesFrom_append hl, List.append_nil, linesFrom]
  simp [hne]

/-- A line with something in it is cut off whatever the lines behind it are. -/
theorem lines_intercalate_cons {l : List Char} (hne : l ≠ []) (hl : OneLine l)
    (ls : List (List Char)) :
    lines (['\n'].intercalate (l :: ls)) = l :: lines (['\n'].intercalate ls) := by
  cases ls with
  | nil =>
    rw [List.intercalate_singleton]
    exact lines_of_oneLine hne hl
  | cons m ls =>
    rw [List.intercalate_cons_cons, List.append_assoc, List.singleton_append, lines_cons_newline hl]

theorem lines_intercalate_of_getLast {ls : List (List Char)} (hlast : [] ∉ ls.getLast?)
    (h : ∀ l ∈ ls, ∀ c ∈ l, isLineBreak c = false) : lines (['\n'].intercalate ls) = ls := by
  induction ls with
  | nil => rfl
  | cons l ls ih =>
    have hl := h l List.mem_cons_self
    cases ls with
    | nil =>
      rw [List.intercalate_singleton]
      exact lines_of_oneLine (fun hnil => hlast (hnil ▸ rfl)) hl
    | cons m ls =>
      rw [List.getLast?_cons_cons] at hlast
      rw [List.intercalate_cons_cons, List.append_assoc, List.singleton_append,
        lines_cons_newline hl, ih hlast fun k hk => h k (List.mem_cons_of_mem l hk)]

/-- A block of lines with something on each of them is read back line by line. -/
theorem lines_intercalate_filled {ls : List String}
    (h : ∀ l ∈ ls, l.toList ≠ [] ∧ OneLine l.toList) :
    lines ("\n".intercalate ls).toList = ls.map String.toList := by
  rw [String.toList_intercalate]
  refine lines_intercalate_of_getLast (fun hlast => ?_) fun l hl => ?_
  · obtain ⟨l, hl, hnil⟩ := List.mem_map.1 (List.mem_of_mem_getLast? hlast)
    exact (h l hl).1 hnil
  · obtain ⟨line, hline, rfl⟩ := List.mem_map.1 hl
    exact (h line hline).2

/-- Lines that are put between others as one text are put between them one by one. -/
theorem intercalate_append (sep : List Char) (a : List (List Char)) {b : List (List Char)}
    (hb : b ≠ []) : sep.intercalate (a ++ [sep.intercalate b]) = sep.intercalate (a ++ b) := by
  induction a with
  | nil => exact List.intercalate_singleton ..
  | cons x a ih =>
    obtain ⟨y, r, hy⟩ := List.exists_cons_of_ne_nil (List.append_ne_nil_of_right_ne_nil a hb)
    obtain ⟨z, t, hz⟩ := List.exists_cons_of_ne_nil
      (List.append_ne_nil_of_right_ne_nil a (List.cons_ne_nil (sep.intercalate b) []))
    rw [List.cons_append, List.cons_append, hy, hz, List.intercalate_cons_cons,
      List.intercalate_cons_cons, ← hy, ← hz, ih]

/-- A line without breaks is read back whatever the lines around it are. -/
theorem mem_lines_intercalate (before : List (List Char)) {l : List Char}
    (hl : ∀ c ∈ l, isLineBreak c = false) (behind : List (List Char)) :
    l ∈ lines (['\n'].intercalate (before ++ l :: behind) ++ ['\n']) := by
  induction before with
  | nil =>
    rw [List.nil_append]
    cases behind with
    | nil =>
      rw [List.intercalate_singleton, lines_cons_newline hl]
      exact List.mem_cons_self
    | cons m behind =>
      rw [List.intercalate_cons_cons, List.append_assoc, List.append_assoc, List.singleton_append,
        lines_cons_newline hl]
      exact List.mem_cons_self
  | cons a before ih =>
    have hne : before ++ l :: behind ≠ [] := by simp
    obtain ⟨b, rest, hb⟩ := List.exists_cons_of_ne_nil hne
    rw [List.cons_append, hb, List.intercalate_cons_cons, List.append_assoc, List.append_assoc,
      List.singleton_append, lines_append_newline, ← hb]
    exact List.mem_append_right _ ih

theorem mem_linesFrom {l s x : List Char} (h : x ∈ linesFrom l s)
    (hl : ∀ c ∈ l, isLineBreak c = false) :
    (∀ c ∈ x, isLineBreak c = false) ∧ x <:+: l.reverse ++ s := by
  fun_induction linesFrom l s with
  | case1 l hempty => cases h
  | case2 l hempty =>
    obtain rfl := List.mem_singleton.1 h
    exact ⟨fun c hc => hl c (List.mem_reverse.1 hc), List.append_nil _ ▸ List.infix_rfl⟩
  | case3 l t ih =>
    rcases List.mem_cons.1 h with rfl | h
    · exact ⟨fun c hc => hl c (List.mem_reverse.1 hc), (List.prefix_append _ _).isInfix⟩
    · obtain ⟨hb, hi⟩ := ih h nofun
      exact ⟨hb, hi.trans ⟨l.reverse ++ ['\r', '\n'], [], by simp⟩⟩
  | case4 l c t hcr hc ih =>
    rcases List.mem_cons.1 h with rfl | h
    · exact ⟨fun c hc => hl c (List.mem_reverse.1 hc), (List.prefix_append _ _).isInfix⟩
    · obtain ⟨hb, hi⟩ := ih h nofun
      exact ⟨hb, hi.trans ⟨l.reverse ++ [c], [], by simp⟩⟩
  | case5 l c t hcr hc ih =>
    have hx := ih h fun d hd => by
      rcases List.mem_cons.1 hd with rfl | hd
      · exact Bool.eq_false_iff.2 hc
      · exact hl d hd
    rw [List.reverse_cons, List.append_assoc] at hx
    exact hx

/-- No line holds a break. -/
theorem not_lineBreak_of_mem_lines {s x : List Char} (h : x ∈ lines s) :
    ∀ c ∈ x, isLineBreak c = false := (mem_linesFrom h nofun).1

end DecimalMachine.Text
