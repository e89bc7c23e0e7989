import DecimalMachine.Proofs.ImageText
/-
  Writing out what was read: the text of an image that was read is read as an image with the same
  words and the same origin, whatever text the image came from (`restored_of_parse`). It is the
  same image, with the same names, unless the first text had words with comments behind them and
  no header for the instructions. Without a header the origin is the first word, and no line of the
  text that is written out has a place for the names.
-/
namespace DecimalMachine.Image

/-! ## Lines with a comment -/

/-- A text with the header of the instructions: some line, but for blanks around it, begins so. -/
def HasHeader (text : String) : Prop :=
  ∃ line ∈ Text.lines text.toList, instructionsHeader.toList <+: Text.trim line

/-- A line with a word and a comment: something but blanks before its first `//`, and something
    but blanks behind it. -/
def IsAnnotated (line : List Char) : Prop :=
  ∃ before behind, Text.trim line = before ++ '/' :: '/' :: behind ∧
    ¬ ['/', '/'] <:+: before ++ ['/'] ∧ Text.trim before ≠ [] ∧ Text.trim behind ≠ []

theorem readEntry_eq_header_iff {line : List Char} :
    readEntry line = .header ↔ instructionsHeader.toList <+: Text.trim line := by
  rw [← List.isPrefixOf_iff_prefix]
  unfold readEntry
  dsimp only
  split
  · rename_i h
    exact iff_of_true rfl h
  · rename_i h
    refine ⟨fun he => ?_, fun hp => absurd hp h⟩
    split at he <;> cases he

theorem hasHeader_iff {text : String} :
    HasHeader text ↔ ∃ line ∈ Text.lines text.toList, readEntry line = .header :=
  exists_congr fun _ => and_congr_right' readEntry_eq_header_iff.symm

/-- A comment is split off at the first `//`, if there is one. -/
theorem splitComment_cut (s : List Char) :
    (s = (splitComment s).1 ++ '/' :: '/' :: (splitComment s).2 ∧
      ¬ ['/', '/'] <:+: (splitComment s).1 ++ ['/']) ∨ splitComment s = (s, []) := by
  have hone : ¬ ['/', '/'] <:+: ['/'] := by decide
  fun_induction splitComment s with
  | case1 r => exact .inl ⟨rfl, hone⟩
  | case3 => exact .inr rfl
  | case2 c r h word comment hs ih =>
    rw [hs] at ih
    rcases ih with ⟨hr, hfirst⟩ | hr
    · refine .inl ⟨congrArg (c :: ·) hr, ?_⟩
      -- The comment would have begun one letter before.
      show ¬ ['/', '/'] <:+: c :: (word ++ ['/'])
      rw [List.infix_cons_iff, not_or]
      refine ⟨fun hc => ?_, hfirst⟩
      obtain ⟨rfl, hw⟩ := List.cons_prefix_cons.1 hc
      have hpre : ['/'] <+: r := by
        rw [hr]
        refine hw.trans ?_
        exact (List.prefix_append_right_inj word).2 ⟨'/' :: comment, rfl⟩
      obtain ⟨u, hu⟩ := hpre
      exact h u rfl hu.symm
    · obtain ⟨rfl, rfl⟩ := Prod.mk.inj hr
      exact .inr rfl

theorem isAnnotated_iff {line : List Char} :
    IsAnnotated line ↔ ∃ text comment, readEntry line = .word text comment ∧ comment ≠ [] := by
  constructor
  · rintro ⟨before, behind, hline, hfirst, hword, hcomment⟩
    have hnone : ¬ ['/', '/'] <:+: before := fun h => hfirst (h.trans List.infix_append_left)
    have hlast : before.getLast? ≠ some '/' := by
      intro hl
      obtain ⟨u, rfl⟩ := List.getLast?_eq_some_iff.1 hl
      exact hfirst ⟨u, [], by simp⟩
    have hsplit := splitComment_append hnone hlast behind
    rw [← hline] at hsplit
    refine ⟨Text.trim before, Text.trim behind, readEntry_eq_word_iff.2 ?_, hcomment⟩
    rw [hsplit]
    exact ⟨hword, rfl, rfl⟩
  · rintro ⟨text, comment, h, hcomment⟩
    obtain ⟨hword, rfl, rfl⟩ := readEntry_eq_word_iff.1 h
    rcases splitComment_cut (Text.trim line) with ⟨hline, hfirst⟩ | hline
    · exact ⟨_, _, hline, hfirst, hword, hcomment⟩
    · rw [hline] at hcomment
      exact absurd rfl hcomment

/-! ## Texts without a header -/

namespace Reading

/-- Headers set the origin and nothing else does. -/
theorem Step.origin_eq_none_iff {r r' : Reading} {line : List Char} (h : r.Step line r') :
    r'.origin = none ↔ r.origin = none ∧ readEntry line ≠ .header := by
  cases h with
  | nothing he => simp [he]
  | header he ho => simp [he]
  | again he ho => simp [he, note, ho]
  | word he hw => simp [he, extend]

/-- As long as there is no origin, a line adds to the names exactly if it has a comment. -/
theorem Step.names_eq_empty_iff {r r' : Reading} {line : List Char} (h : r.Step line r')
    (ho : r'.origin = none) : r'.names = .empty ↔ r.names = .empty ∧ ¬ IsAnnotated line := by
  rw [isAnnotated_iff]
  cases h with
  | nothing he => simp [he]
  | header he => cases ho
  | again he => simp [he, note]
  | @word text comment he hw =>
    have ho : r.origin = none := ho
    rw [he]
    by_cases hc : comment = []
    · have hnames : (r.extend text comment).names = r.names := by simp [extend, hc]
      rw [hnames]
      simp [hc]
    · have hnames : (r.extend text comment).names =
          r.names.put r.words.size (String.ofList comment) := by simp [extend, ho, hc]
      rw [hnames]
      have hput : r.names.put r.words.size (String.ofList comment) ≠ .empty := by
        intro h
        have hget := AddressNames.get?_put r.names r.words.size (String.ofList comment) r.words.size
        rw [h, if_pos rfl] at hget
        cases hget
      simp [hc, hput]

theorem origin_eq_none_iff {lines : List (List Char)} {r r' : Reading} {number : Nat}
    (hr : r.takeLines number lines = .ok r') :
    r'.origin = none ↔ r.origin = none ∧ ∀ line ∈ lines, readEntry line ≠ .header := by
  induction lines generalizing r number with
  | nil =>
    obtain rfl := Except.ok.inj hr
    simp
  | cons line lines ih =>
    unfold Reading.takeLines at hr
    cases ht : r.takeLine number line with
    | error e => rw [ht] at hr; cases hr
    | ok r₁ =>
      rw [ht] at hr
      rw [ih hr, (step_of_takeLine ht).origin_eq_none_iff, List.forall_mem_cons, and_assoc]

theorem names_eq_empty_iff {lines : List (List Char)} {r r' : Reading} {number : Nat}
    (hr : r.takeLines number lines = .ok r') (ho : r'.origin = none) :
    r'.names = .empty ↔ r.names = .empty ∧ ∀ line ∈ lines, ¬ IsAnnotated line := by
  induction lines generalizing r number with
  | nil =>
    obtain rfl := Except.ok.inj hr
    simp
  | cons line lines ih =>
    unfold Reading.takeLines at hr
    cases ht : r.takeLine number line with
    | error e => rw [ht] at hr; cases hr
    | ok r₁ =>
      rw [ht] at hr
      have ho₁ : r₁.origin = none := ((origin_eq_none_iff hr).1 ho).1
      rw [ih hr, (step_of_takeLine ht).names_eq_empty_iff ho₁, List.forall_mem_cons, and_assoc]

end Reading

/-- What is read from a text without a header begins with its first instruction, and it has a name
    exactly if some line has a comment. -/
theorem headless_of_parse {text : String} {capacity : Option Int} {i : Image}
    (h : (parse text capacity).result = .ok i) (hh : ¬ HasHeader text) :
    i.origin = 0 ∧ (∀ w ∈ i.words, IsWord w.toList) ∧
      (i.names = .empty ↔ ∀ line ∈ Text.lines text.toList, ¬ IsAnnotated line) := by
  obtain ⟨r, hr, hi⟩ := parse_eq_ok_iff.1 h
  obtain ⟨-, rfl⟩ := Reading.finish_eq_ok_iff.1 hi
  have hnone : ∀ line ∈ Text.lines text.toList, readEntry line ≠ .header :=
    fun line hl he => hh (hasHeader_iff.2 ⟨line, hl, he⟩)
  have ho : r.origin = none := (Reading.origin_eq_none_iff hr).2 ⟨rfl, hnone⟩
  have hgood := Reading.good_start.takeLines (fun _ => Text.not_lineBreak_of_mem_lines) hr
  have hnames := Reading.names_eq_empty_iff hr ho
  refine ⟨?_, hgood.words, hnames.trans (and_iff_right rfl)⟩
  unfold Reading.image
  rw [ho]
  rfl

/-! ## Images without data -/

/-- The image without its names. -/
def nameless (i : Image) : Image := { i with names := .empty }

/-- An image without data writes no names. -/
theorem toText_nameless {i : Image} (ho : i.origin = 0) : i.nameless.toText = i.toText := by
  have hdata : i.data = [] := by
    unfold data cut
    rw [ho]
    rfl
  have hdata' : i.nameless.data = [] := hdata
  unfold toText textLines
  rw [hdata, hdata']
  rfl

theorem wellFormed_nameless {i : Image} (ho : i.origin = 0) (hw : ∀ w ∈ i.words, IsWord w.toList) :
    i.nameless.WellFormed := by
  refine ⟨?_, hw, nofun⟩
  show 0 ≤ i.origin ∧ i.origin ≤ i.words.length
  omega

/-- The text of an image that was read is that of a well-formed image with its words and its
    origin, and with its names if they can be written. -/
theorem restored_of_parse {text : String} {capacity : Option Int} {i : Image}
    (h : (parse text capacity).result = .ok i) :
    ∃ i' : Image, i'.WellFormed ∧ i'.toText = i.toText ∧ i'.words = i.words ∧
      i'.origin = i.origin ∧
      (i' = i ↔ HasHeader text ∨ ∀ line ∈ Text.lines text.toList, ¬ IsAnnotated line) := by
  by_cases hh : HasHeader text
  · have hi := wellFormed_of_parse h (hasHeader_iff.1 hh)
    exact ⟨i, hi, rfl, rfl, rfl, iff_of_true rfl (.inl hh)⟩
  · obtain ⟨ho, hw, hnames⟩ := headless_of_parse h hh
    refine ⟨i.nameless, wellFormed_nameless ho hw, toText_nameless ho, rfl, rfl, ?_⟩
    rw [or_iff_right hh, ← hnames]
    constructor
    · intro he
      exact (congrArg Image.names he).symm
    · intro he
      unfold nameless
      rw [← he]

/-- The text of an image that was read from a text is read again, with the same words and the same
    origin. It is read as the same image exactly if the first text had a header for the
    instructions or no word of it had a comment. As long as the words have indices, it is the text
    that is written. -/
theorem parse_stable (text : String) (capacity : Option Int) (i : Image)
    (h : (parse text capacity).result = .ok i) :
    (∃ i', (parse i.toText none).result = .ok i' ∧ i'.words = i.words ∧ i'.origin = i.origin ∧
      (i' = i ↔ HasHeader text ∨ ∀ line ∈ Text.lines text.toList, ¬ IsAnnotated line)) ∧
    (i.words.length < Capacity.indices → i.writeText = .ok i.toText) := by
  obtain ⟨i', hi', htext, hwords, horigin, hsame⟩ := restored_of_parse h
  refine ⟨⟨i', ?_, hwords, horigin, hsame⟩, fun hlen => ?_⟩
  · rw [← htext]
    exact parse_toText hi'
  · have hwrite := writeText_of_wellFormed hi' (hwords ▸ hlen)
    have hsame : i.writeText = i'.writeText := by
      unfold writeText checkOrigin
      rw [htext, horigin]
    rw [hsame, hwrite, htext]

/-- A header between the words, and comments before and behind it. -/
def headed : String := "0005 // x\n// Instructions\n2000 // load\n"

/-- No header, and a comment. -/
def headless : String := "0005 // x\n2000\n"

theorem parse_stable_headed :
    (parse headed none).result = .ok ⟨["0005", "2000"], 1, .ofList [(0, "x")]⟩ ∧
      (∃ i', (parse (⟨["0005", "2000"], 1, .ofList [(0, "x")]⟩ : Image).toText none).result =
        .ok i' ∧ i' = ⟨["0005", "2000"], 1, .ofList [(0, "x")]⟩) ∧
    (parse headless none).result = .ok ⟨["0005", "2000"], 0, .ofList [(0, "x")]⟩ ∧
      ∃ i', (parse (⟨["0005", "2000"], 0, .ofList [(0, "x")]⟩ : Image).toText none).result =
        .ok i' ∧ i'.words = ["0005", "2000"] ∧ i' ≠ ⟨["0005", "2000"], 0, .ofList [(0, "x")]⟩ := by
  have hheaded : (parse headed none).result = .ok ⟨["0005", "2000"], 1, .ofList [(0, "x")]⟩ := rfl
  have hheadless :
      (parse headless none).result = .ok ⟨["0005", "2000"], 0, .ofList [(0, "x")]⟩ := rfl
  obtain ⟨⟨i, hi, -, -, hsame⟩, -⟩ := parse_stable _ _ _ hheaded
  obtain ⟨⟨j, hj, hwords, -, hdiffers⟩, -⟩ := parse_stable _ _ _ hheadless
  have hheader : HasHeader headed := by
    unfold HasHeader
    decide
  have hnone : ¬ HasHeader headless := by
    unfold HasHeader
    decide
  have hannotated : IsAnnotated "0005 // x".toList := ⟨"0005 ".toList, " x".toList, by decide⟩
  refine ⟨hheaded, ⟨i, hi, hsame.2 (.inl hheader)⟩, hheadless, j, hj, hwords, fun he => ?_⟩
  rcases hdiffers.1 he with h | h
  · exact hnone h
  · exact h _ (by decide) hannotated

end DecimalMachine.Image
