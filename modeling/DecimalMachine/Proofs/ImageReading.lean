import Mathlib.Data.List.Infix
import DecimalMachine.Proofs.AddressNames
import DecimalMachine.Proofs.Ranges
import DecimalMachine.Proofs.TextCuts
/-
  Reading images: what a text form must be to be read, and what is read from it. A line is blank, a
  comment, the header of the instructions or a word, and the reading goes on from it in one way
  (`step_of_takeLine`). All words that are read are words (`IsWord`), and all names are names
  (`IsName`) of addresses before the origin; so an image that is read from a text with a header is
  well-formed (`wellFormed_of_parse`).
-/
namespace DecimalMachine

namespace Text

/-- The number that a numeral stands for, however long it is. -/
def numeralValue (s : List Char) : Int :=
  applySign (splitSign s).1 (Nat.ofDigitChars 10 (splitSign s).2 0)

theorem intOfNumeral_eq_ok_iff {s : List Char} {n : Int} :
    intOfNumeral s = .ok n ↔ (splitSign s).2.length ≤ maxDigits ∧ numeralValue s = n := by
  unfold intOfNumeral natOfDigits
  split
  · rename_i h
    rw [and_iff_right h]
    exact ⟨fun hn => Except.ok.inj hn, fun hn => congrArg Except.ok hn⟩
  · rename_i h
    exact ⟨nofun, fun hn => absurd hn.1 h⟩

end Text

namespace Image

/-! ## Well-formed images -/

/-- A text that can stand as a word: it has neither blanks nor a comment in it, and if it is a
    numeral it can be read and is the number of a word. -/
structure IsWord (w : List Char) : Prop where
  ne_nil : w ≠ []
  not_blank : ∀ c ∈ w, Text.isBlank c = false
  no_comment : ¬ ['/', '/'] <:+: w
  fits : Text.isNumeral w = true →
    (Text.splitSign w).2.length ≤ maxDigits ∧ Word.inRange (Text.numeralValue w) = true

instance (w : List Char) : Decidable (IsWord w) :=
  decidable_of_iff (w ≠ [] ∧ (∀ c ∈ w, Text.isBlank c = false) ∧ ¬ ['/', '/'] <:+: w ∧
      (Text.isNumeral w = true →
        (Text.splitSign w).2.length ≤ maxDigits ∧ Word.inRange (Text.numeralValue w) = true))
    ⟨fun ⟨hne, hb, hc, hf⟩ => ⟨hne, hb, hc, hf⟩, fun ⟨hne, hb, hc, hf⟩ => ⟨hne, hb, hc, hf⟩⟩

/-- A text that can stand as a name: one line, with no blank at either end. -/
structure IsName (x : List Char) : Prop where
  ne_nil : x ≠ []
  one_line : ∀ c ∈ x, Text.isLineBreak c = false
  trimmed : Text.Trimmed x

instance (x : List Char) : Decidable (IsName x) :=
  decidable_of_iff
    (x ≠ [] ∧ (∀ c ∈ x, Text.isLineBreak c = false) ∧ Text.Trimmed x)
    ⟨fun ⟨hne, hl, ht⟩ => ⟨hne, hl, ht⟩, fun ⟨hne, hl, ht⟩ => ⟨hne, hl, ht⟩⟩

/-- The origin is the address of a word or the one behind all words, and the names are names of
    addresses before it. -/
structure WellFormed (i : Image) : Prop where
  origin : 0 ≤ i.origin ∧ i.origin ≤ i.words.length
  words : ∀ w ∈ i.words, IsWord w.toList
  names : ∀ e ∈ i.names.entries, (0 ≤ e.1 ∧ e.1 < i.origin) ∧ IsName e.2.toList

instance (i : Image) : Decidable i.WellFormed :=
  decidable_of_iff ((0 ≤ i.origin ∧ i.origin ≤ i.words.length) ∧
      (∀ w ∈ i.words, IsWord w.toList) ∧
      ∀ e ∈ i.names.entries, (0 ≤ e.1 ∧ e.1 < i.origin) ∧ IsName e.2.toList)
    ⟨fun ⟨ho, hw, hn⟩ => ⟨ho, hw, hn⟩, fun ⟨ho, hw, hn⟩ => ⟨ho, hw, hn⟩⟩

/-! ## Comments -/

theorem splitComment_cons {c : Char} {r : List Char} (h : c = '/' → ∀ s, r ≠ '/' :: s) :
    splitComment (c :: r) = (c :: (splitComment r).1, (splitComment r).2) := by
  rw [splitComment]
  rintro s rfl rfl
  exact h rfl s rfl

theorem splitComment_fst_isPrefix (s : List Char) : (splitComment s).1 <+: s := by
  fun_induction splitComment s with
  | case1 r => exact List.nil_prefix
  | case2 c r h word comment hs ih =>
    rw [hs] at ih
    exact (List.prefix_cons_inj c).2 ih
  | case3 => exact List.prefix_rfl

theorem splitComment_snd_isSuffix (s : List Char) : (splitComment s).2 <:+ s := by
  fun_induction splitComment s with
  | case1 r => exact (List.suffix_cons _ _).trans (List.suffix_cons _ _)
  | case2 c r h word comment hs ih =>
    rw [hs] at ih
    exact ih.trans (List.suffix_cons c r)
  | case3 => exact List.suffix_rfl

/-- No comment begins before the comment. -/
theorem no_comment_splitComment (s : List Char) : ¬ ['/', '/'] <:+: (splitComment s).1 := by
  fun_induction splitComment s with
  | case1 r => simp
  | case2 c r h word comment hs ih =>
    have hpre := splitComment_fst_isPrefix r
    rw [hs] at ih hpre
    dsimp only at ih hpre ⊢
    rw [List.infix_cons_iff, not_or]
    refine ⟨fun hc => ?_, ih⟩
    obtain ⟨rfl, hw⟩ := List.cons_prefix_cons.1 hc
    obtain ⟨u, hu⟩ := hw.trans hpre
    exact h u rfl hu.symm
  | case3 => simp

/-- A comment is split off where it begins. -/
theorem splitComment_append {u : List Char} (h : ¬ ['/', '/'] <:+: u)
    (hlast : u.getLast? ≠ some '/') (r : List Char) :
    splitComment (u ++ '/' :: '/' :: r) = (u, r) := by
  induction u with
  | nil => rfl
  | cons c u ih =>
    rw [List.infix_cons_iff, not_or] at h
    have hlast' : u.getLast? ≠ some '/' := by
      intro hu
      rw [List.getLast?_cons, hu] at hlast
      exact hlast rfl
    rw [List.cons_append, splitComment_cons, ih h.2 hlast']
    rintro rfl s hs
    cases u with
    | nil => exact hlast rfl
    | cons d u =>
      obtain ⟨rfl, -⟩ := List.cons.inj hs
      exact h.1 ⟨u, rfl⟩

theorem splitComment_of_no_comment {u : List Char} (h : ¬ ['/', '/'] <:+: u) :
    splitComment u = (u, []) := by
  induction u with
  | nil => rfl
  | cons c u ih =>
    rw [List.infix_cons_iff, not_or] at h
    rw [splitComment_cons, ih h.2]
    rintro rfl s rfl
    exact h.1 ⟨s, rfl⟩

/-! ## Lines -/

theorem splitComment_of_header {s : List Char} (h : instructionsHeader.toList <+: s) :
    (splitComment s).1 = [] := by
  obtain ⟨r, rfl⟩ := h
  rfl

/-- A line has a word if something is left of it before its comment. -/
theorem readEntry_eq_word_iff {line text comment : List Char} :
    readEntry line = .word text comment ↔ text ≠ [] ∧
      text = Text.trim (splitComment (Text.trim line)).1 ∧
      comment = Text.trim (splitComment (Text.trim line)).2 := by
  unfold readEntry
  dsimp only
  split
  · rename_i h
    have hnil := splitComment_of_header (List.isPrefixOf_iff_prefix.1 h)
    rw [hnil]
    exact ⟨nofun, fun ⟨hne, ht, _⟩ => absurd ht hne⟩
  · split
    · rename_i h
      exact ⟨nofun, fun ⟨hne, ht, _⟩ => absurd (ht.trans (List.isEmpty_iff.1 h)) hne⟩
    · rename_i h
      have hne := List.isEmpty_eq_false_iff.1 (Bool.eq_false_iff.2 h)
      rw [Entry.word.injEq]
      constructor
      · rintro ⟨rfl, rfl⟩
        exact ⟨hne, rfl, rfl⟩
      · rintro ⟨-, rfl, rfl⟩
        exact ⟨rfl, rfl⟩

/-- A text without blanks that can be read is a word. -/
theorem takes_iff {text : List Char} (hne : text ≠ []) (ht : Text.Trimmed text)
    (hc : ¬ ['/', '/'] <:+: text) :
    (Text.words text).length = 1 ∧ (∃ value, Word.parse (String.ofList text) = .ok value ∧
      ∀ n ∈ value, Word.inRange n = true) ↔ IsWord text := by
  have hparse : Word.parse (String.ofList text) =
      if Text.isNumeral text then (Text.intOfNumeral text).map some else .ok none := by
    unfold Word.parse Text.readNumeral
    rw [String.toList_ofList, Text.trim_of_trimmed ht]
  constructor
  · rintro ⟨hlen, value, hv, hin⟩
    refine ⟨hne, Text.not_blank_of_length_words ht hlen, hc, fun hnum => ?_⟩
    rw [hparse, if_pos hnum] at hv
    cases hn : Text.intOfNumeral text with
    | error e => rw [hn] at hv; cases hv
    | ok n =>
      rw [hn] at hv
      obtain rfl := Except.ok.inj hv
      obtain ⟨hdigits, rfl⟩ := Text.intOfNumeral_eq_ok_iff.1 hn
      exact ⟨hdigits, hin _ rfl⟩
  · intro h
    refine ⟨by rw [Text.words_of_not_blank hne h.not_blank]; rfl, ?_⟩
    rw [hparse]
    cases hnum : Text.isNumeral text with
    | false => exact ⟨none, rfl, nofun⟩
    | true =>
      obtain ⟨hdigits, hin⟩ := h.fits hnum
      rw [if_pos rfl, Text.intOfNumeral_eq_ok_iff.2 ⟨hdigits, rfl⟩]
      refine ⟨_, rfl, fun n hn => ?_⟩
      obtain rfl := Option.some.inj hn
      exact hin

namespace Reading

/-- The reading after a word, with the comment behind it. -/
def extend (r : Reading) (text comment : List Char) : Reading :=
  { r with
    words := r.words.push (String.ofList text),
    names :=
      if r.origin.isNone && !comment.isEmpty then r.names.put r.words.size (String.ofList comment)
      else r.names }

theorem takeWord_eq_ok_iff {r r' : Reading} {number : Nat} {text comment : List Char} :
    r.takeWord number text comment = .ok r' ↔
      ((Text.words text).length = 1 ∧ ∃ value, Word.parse (String.ofList text) = .ok value ∧
        ∀ n ∈ value, Word.inRange n = true) ∧ r' = r.extend text comment := by
  unfold takeWord
  dsimp only
  split
  · rename_i h
    exact ⟨nofun, fun hr => absurd hr.1.1 h⟩
  · rename_i hlen
    split
    · rename_i e he
      rw [he]
      exact ⟨nofun, fun ⟨⟨_, _, hv, _⟩, _⟩ => nomatch hv⟩
    · rename_i value hv
      rw [hv]
      have hin : (value.any fun n => !Word.inRange n) = true ↔
          ¬ ∀ n ∈ value, Word.inRange n = true := by
        cases value <;> simp
      split
      · rename_i h
        refine ⟨nofun, fun ⟨⟨_, value', hv', hall⟩, _⟩ => ?_⟩
        obtain rfl := Except.ok.inj hv'
        exact absurd hall (hin.1 h)
      · rename_i h
        have hall := not_not.1 (mt hin.2 h)
        constructor
        · intro hr
          exact ⟨⟨not_not.1 hlen, value, rfl, hall⟩, (Except.ok.inj hr).symm⟩
        · rintro ⟨-, rfl⟩
          rfl

/-- What a line of each kind makes of a reading. -/
inductive Step (r : Reading) (line : List Char) : Reading → Prop
  | nothing (h : readEntry line = .nothing) : Step r line r
  | header (h : readEntry line = .header) (ho : r.origin = none) :
      Step r line { r with origin := some r.words.size }
  | again {o : Nat} {n : Note} (h : readEntry line = .header) (ho : r.origin = some o) :
      Step r line (r.note n)
  | word {text comment : List Char} (h : readEntry line = .word text comment)
      (hw : IsWord text) : Step r line (r.extend text comment)

theorem takeLine_of_word {r r' : Reading} {number : Nat} {line text comment : List Char}
    (h : readEntry line = .word text comment) :
    r.takeLine number line = .ok r' ↔ IsWord text ∧ r' = r.extend text comment := by
  obtain ⟨hne, ht, -⟩ := readEntry_eq_word_iff.1 h
  have htrimmed : Text.Trimmed text := ht ▸ Text.trimmed_trim _
  have hcomment : ¬ ['/', '/'] <:+: text := fun hc =>
    no_comment_splitComment _ (hc.trans (ht ▸ Text.trim_isInfix _))
  unfold takeLine
  rw [h]
  exact takeWord_eq_ok_iff.trans (and_congr_left' (takes_iff hne htrimmed hcomment))

theorem step_of_takeLine {r r' : Reading} {number : Nat} {line : List Char}
    (h : r.takeLine number line = .ok r') : r.Step line r' := by
  cases he : readEntry line with
  | word text comment =>
    obtain ⟨hw, rfl⟩ := (takeLine_of_word he).1 h
    exact .word he hw
  | nothing =>
    unfold takeLine at h
    rw [he] at h
    obtain rfl := Except.ok.inj h
    exact .nothing he
  | header =>
    unfold takeLine at h
    rw [he] at h
    cases ho : r.origin with
    | none =>
      simp only [ho] at h
      obtain rfl := Except.ok.inj h
      exact .header he ho
    | some o =>
      simp only [ho] at h
      obtain rfl := Except.ok.inj h
      exact .again he ho

/-! ## What has been read -/

/-- All words that have been read are words, and all names are names of addresses before the
    origin or, as long as there is none, of words that have been read. -/
structure Good (r : Reading) : Prop where
  words : ∀ w ∈ r.words.toList, IsWord w.toList
  names : ∀ e ∈ r.names.entries,
    (0 ≤ e.1 ∧ e.1 < ((r.origin.getD r.words.size : Nat) : Int)) ∧ IsName e.2.toList

theorem good_start : start.Good := ⟨nofun, nofun⟩

theorem isName_comment {line text comment : List Char} (h : readEntry line = .word text comment)
    (hl : ∀ c ∈ line, Text.isLineBreak c = false) (hne : comment ≠ []) : IsName comment := by
  obtain ⟨-, -, hc⟩ := readEntry_eq_word_iff.1 h
  have hcut : comment <:+: line := by
    rw [hc]
    exact (Text.trim_isInfix _).trans
      ((splitComment_snd_isSuffix _).isInfix.trans (Text.trim_isInfix line))
  exact ⟨hne, fun c hm => hl c (hcut.subset hm), hc ▸ Text.trimmed_trim _⟩

theorem Good.step {r r' : Reading} (h : r.Good) {line : List Char}
    (hl : ∀ c ∈ line, Text.isLineBreak c = false) (hs : r.Step line r') : r'.Good := by
  cases hs with
  | nothing he => exact h
  | again he ho => exact ⟨h.words, h.names⟩
  | header he ho =>
    -- The origin becomes the number of words, which the names were bounded by until now.
    refine ⟨h.words, ?_⟩
    have hnames := h.names
    rw [ho] at hnames
    exact hnames
  | @word text comment he hw =>
    refine ⟨fun w hm => ?_, fun e hm => ?_⟩
    · rcases List.mem_append.1 (Array.toList_push ▸ hm) with hm | hm
      · exact h.words w hm
      · obtain rfl := List.mem_singleton.1 hm
        rwa [String.toList_ofList]
    · have hsize : (r.extend text comment).words.size = r.words.size + 1 := Array.size_push _
      have hold : e ∈ r.names.entries → (0 ≤ e.1 ∧ e.1 <
          (((r.extend text comment).origin.getD (r.extend text comment).words.size : Nat) : Int)) ∧
          IsName e.2.toList := fun he => by
        obtain ⟨⟨h0, h1⟩, hn⟩ := h.names e he
        refine ⟨⟨h0, Int.lt_of_lt_of_le h1 ?_⟩, hn⟩
        rw [hsize]
        show ((r.origin.getD _ : Nat) : Int) ≤ (r.origin.getD _ : Nat)
        cases r.origin with
        | none => exact Int.ofNat_le.2 (Nat.le_succ _)
        | some o => exact Int.le_refl _
      by_cases hc : (r.origin.isNone && !comment.isEmpty) = true
      · obtain ⟨ho, hne⟩ := Bool.and_eq_true_iff.1 hc
        have hne : comment ≠ [] := by simpa using hne
        have ho : r.origin = none := by simpa using ho
        have hnames : (r.extend text comment).names =
            r.names.put r.words.size (String.ofList comment) := if_pos hc
        rw [hnames] at hm
        rcases mem_putEntry hm with rfl | hm
        · have horigin : (r.extend text comment).origin = none := ho
          rw [horigin, hsize, String.toList_ofList]
          exact ⟨⟨Int.natCast_nonneg _, Int.ofNat_lt.2 (Nat.lt_succ_self _)⟩,
            isName_comment he hl hne⟩
        · exact hold hm
      · have hnames : (r.extend text comment).names = r.names := if_neg hc
        exact hold (hnames ▸ hm)

theorem Good.takeLines {lines : List (List Char)} {r r' : Reading} (h : r.Good) {number : Nat}
    (hl : ∀ line ∈ lines, ∀ c ∈ line, Text.isLineBreak c = false)
    (hr : r.takeLines number lines = .ok r') : r'.Good := by
  induction lines generalizing r number with
  | nil =>
    obtain rfl := Except.ok.inj hr
    exact h
  | cons line lines ih =>
    unfold Reading.takeLines at hr
    cases ht : r.takeLine number line with
    | error e => rw [ht] at hr; cases hr
    | ok r₁ =>
      rw [ht] at hr
      exact ih (h.step (hl line List.mem_cons_self) (step_of_takeLine ht))
        (fun k hk => hl k (List.mem_cons_of_mem line hk)) hr

/-- The first header sets the origin, and nothing takes it back. -/
theorem origin_of_header {lines : List (List Char)} {r r' : Reading} {number : Nat}
    (hh : r.origin.isSome = true ∨ ∃ line ∈ lines, readEntry line = .header)
    (hr : r.takeLines number lines = .ok r') : r'.origin.isSome = true := by
  induction lines generalizing r number with
  | nil =>
    obtain rfl := Except.ok.inj hr
    simpa using hh
  | cons line lines ih =>
    unfold Reading.takeLines at hr
    cases ht : r.takeLine number line with
    | error e => rw [ht] at hr; cases hr
    | ok r₁ =>
      rw [ht] at hr
      refine ih ?_ hr
      cases step_of_takeLine ht with
      | nothing he => simpa [he] using hh
      | header he ho => exact .inl rfl
      | again he ho => exact .inl (ho ▸ rfl)
      | word he hw => simpa [he, extend] using hh

/-- The image of a reading that is not too long. -/
def image (r : Reading) : Image := ⟨r.words.toList, r.origin.getD 0, r.names⟩

theorem finish_eq_ok_iff {r : Reading} {capacity : Option Int} {i : Image} :
    (r.finish capacity).result = .ok i ↔
      (∀ c ∈ capacity, (r.words.size : Int) ≤ c) ∧ i = r.image := by
  have hfilter : capacity.filter (fun c => c < (r.words.size : Int)) = none ↔
      ∀ c ∈ capacity, (r.words.size : Int) ≤ c := by
    cases capacity <;> simp
  unfold finish
  split
  · rename_i c hc
    rw [← hfilter, hc]
    exact ⟨nofun, nofun⟩
  · rename_i hc
    rw [and_iff_right (hfilter.1 hc)]
    cases ho : r.origin with
    | none => simp [ho, image, note, eq_comm]
    | some o => simp [ho, image, eq_comm]

end Reading

theorem parse_eq_ok_iff {text : String} {capacity : Option Int} {i : Image} :
    (parse text capacity).result = .ok i ↔
      ∃ r, Reading.start.takeLines 1 (Text.lines text.toList) = .ok r ∧
        (r.finish capacity).result = .ok i := by
  unfold parse
  cases Reading.start.takeLines 1 (Text.lines text.toList) with
  | error e => simp
  | ok r => simp

/-- What is read from a text with a header is well-formed. -/
theorem wellFormed_of_parse {text : String} {capacity : Option Int} {i : Image}
    (h : (parse text capacity).result = .ok i)
    (hh : ∃ line ∈ Text.lines text.toList, readEntry line = .header) : i.WellFormed := by
  have hplaced := placed_of_parse h
  obtain ⟨r, hr, hi⟩ := parse_eq_ok_iff.1 h
  obtain ⟨-, rfl⟩ := Reading.finish_eq_ok_iff.1 hi
  have hgood := Reading.good_start.takeLines (fun _ => Text.not_lineBreak_of_mem_lines) hr
  obtain ⟨o, ho⟩ := Option.isSome_iff_exists.1 (Reading.origin_of_header (.inr hh) hr)
  have hnames := hgood.names
  rw [ho] at hnames
  refine ⟨hplaced, hgood.words, ?_⟩
  unfold Reading.image
  rw [ho]
  exact hnames

end Image

end DecimalMachine
