import DecimalMachine.Proofs.ImageReading
import DecimalMachine.Proofs.ProgramLayout
import DecimalMachine.Proofs.LineReading
/-
  The text form of images: an image is read back from its text exactly if it is well-formed
  (`parse_toText_iff`). Its text has a header for the instructions whatever the image is, so what is
  read from it is well-formed; and line by line a well-formed image is read back as it was
  (`Reading.Copied`). Images of programs are well-formed.
-/
namespace DecimalMachine

namespace Image

/-! ## Headers -/

theorem trimmed_header {a : List Char} (m : List Char) (ha : ∀ c ∈ a.head?, Text.isBlank c = false)
    (hne : a ≠ []) : Text.Trimmed (a ++ m ++ [')']) := by
  constructor
  · intro c hc
    cases a with
    | nil => exact absurd rfl hne
    | cons d a => exact ha c hc
  · intro c hc
    rw [List.getLast?_concat] at hc
    obtain rfl := Option.some.inj hc
    decide

theorem toList_variables (n : Int) : s!"{variablesHeader} (addresses 0-{n})".toList =
    "// Variables (addresses 0-".toList ++ (toString n).toList ++ [')'] := by
  show ("// Variables" ++ " (addresses 0-" ++ toString n ++ ")").toList = _
  simp

theorem toList_instructions (n : Int) : s!"{instructionsHeader} (starting at address {n})".toList =
    "// Instructions (starting at address ".toList ++ (toString n).toList ++ [')'] := by
  show ("// Instructions" ++ " (starting at address " ++ toString n ++ ")").toList = _
  simp

theorem readEntry_variables (n : Int) :
    readEntry s!"{variablesHeader} (addresses 0-{n})".toList = .nothing := by
  have htrim := Text.trim_of_trimmed
    (@trimmed_header "// Variables (addresses 0-".toList (toString n).toList (by decide) (by decide))
  unfold readEntry
  rw [toList_variables, htrim]
  rfl

theorem readEntry_instructions (n : Int) :
    readEntry s!"{instructionsHeader} (starting at address {n})".toList = .header := by
  have htrim := Text.trim_of_trimmed
    (@trimmed_header "// Instructions (starting at address ".toList (toString n).toList
      (by decide) (by decide))
  unfold readEntry
  rw [toList_instructions, htrim]
  rfl

theorem one_line_header {a : List Char} (ha : ∀ c ∈ a, Text.isLineBreak c = false) (n : Int) :
    ∀ c ∈ a ++ (toString n).toList ++ [')'], Text.isLineBreak c = false :=
  (Text.OneLine.append ha (Text.oneLine_toString n)).append (by decide)

/-! ## Lines of words -/

theorem IsWord.trimmed {w : List Char} (h : IsWord w) : Text.Trimmed w :=
  Text.trimmed_of_not_blank h.not_blank

theorem readEntry_word {w : List Char} (h : IsWord w) : readEntry w = .word w [] := by
  rw [readEntry_eq_word_iff, Text.trim_of_trimmed h.trimmed,
    splitComment_of_no_comment h.no_comment]
  exact ⟨h.ne_nil, (Text.trim_of_trimmed h.trimmed).symm, rfl⟩

theorem no_comment_concat_blank {w : List Char} (h : ¬ ['/', '/'] <:+: w) :
    ¬ ['/', '/'] <:+: w ++ [' '] := by
  rw [List.infix_concat_iff, not_or]
  refine ⟨?_, h⟩
  rintro ⟨t, ht⟩
  have hlast := congrArg List.getLast? ht
  simp at hlast

/-- A word with a name behind it. -/
theorem readEntry_named {w x : List Char} (hw : IsWord w) (hx : IsName x) :
    readEntry (w ++ "  // ".toList ++ x) = .word w x := by
  have hline : w ++ "  // ".toList ++ x = (w ++ [' '] ++ [' ']) ++ '/' :: '/' :: ' ' :: x := by
    simp
  have htrimmed : Text.Trimmed (w ++ "  // ".toList ++ x) := by
    constructor
    · intro c hc
      obtain ⟨d, w', rfl⟩ := List.exists_cons_of_ne_nil hw.ne_nil
      obtain rfl := Option.some.inj hc
      exact hw.not_blank _ List.mem_cons_self
    · intro c hc
      rw [List.getLast?_append_of_ne_nil _ hx.ne_nil] at hc
      exact hx.trimmed.2 c hc
  have hsplit := splitComment_append
    (no_comment_concat_blank (no_comment_concat_blank hw.no_comment)) (by simp) (' ' :: x)
  have hblank : ∀ c ∈ [' ', ' '], Text.isBlank c = true := by decide
  have hword := Text.trim_append_blanks (a := []) w nofun hblank
  have hname := Text.trim_append_blanks (b := []) x (a := [' ']) (by decide) nofun
  rw [readEntry_eq_word_iff, Text.trim_of_trimmed htrimmed, hline, hsplit]
  refine ⟨hw.ne_nil, ?_, ?_⟩
  · rw [Text.trim_of_trimmed hw.trimmed] at hword
    simpa using hword.symm
  · rw [Text.trim_of_trimmed hx.trimmed] at hname
    simpa using hname.symm

/-- The comment behind the word at an address: its name, if it has one. -/
def comment (i : Image) (address : Nat) : List Char := ((i.names.get? address).getD "").toList

theorem toList_dataLine {i : Image} {address : Nat}
    (hn : ∀ x ∈ i.names.get? address, IsName x.toList) (word : String) :
    (i.dataLine address word).toList =
      match i.names.get? address with
      | some x => word.toList ++ "  // ".toList ++ x.toList
      | none => word.toList := by
  unfold dataLine
  cases hx : i.names.get? address with
  | none => rfl
  | some x =>
    have hne : x.isEmpty = false := by
      refine Bool.eq_false_iff.2 fun he => (hn x hx).ne_nil ?_
      rw [String.isEmpty_iff.1 he]
      rfl
    dsimp only
    rw [hne, if_neg Bool.false_ne_true]
    show (word ++ "  // " ++ x).toList = _
    simp

/-- The line of a data word is read as the word and its name. -/
theorem readEntry_dataLine {i : Image} {address : Nat} {word : String} (hw : IsWord word.toList)
    (hn : ∀ x ∈ i.names.get? address, IsName x.toList) :
    readEntry (i.dataLine address word).toList = .word word.toList (i.comment address) := by
  rw [toList_dataLine hn]
  unfold comment
  cases hx : i.names.get? address with
  | none => exact readEntry_word hw
  | some x => exact readEntry_named hw (hn x hx)

theorem IsWord.one_line {w : List Char} (h : IsWord w) : ∀ c ∈ w, Text.isLineBreak c = false :=
  Text.oneLine_of_not_blank h.not_blank

theorem one_line_dataLine {i : Image} {address : Nat} {word : String} (hw : IsWord word.toList)
    (hn : ∀ x ∈ i.names.get? address, IsName x.toList) :
    ∀ c ∈ (i.dataLine address word).toList, Text.isLineBreak c = false := by
  rw [toList_dataLine hn]
  cases hx : i.names.get? address with
  | none => exact hw.one_line
  | some x =>
    intro c hc
    rcases List.mem_append.1 hc with hc | hc
    · rcases List.mem_append.1 hc with hc | hc
      · exact hw.one_line c hc
      · have hblank : ∀ c ∈ "  // ".toList, Text.isLineBreak c = false := by decide
        exact hblank c hc
    · exact (hn x hx).one_line c hc

/-! ## Reading a text back -/

namespace Reading

theorem takeLines_cons {r r' : Reading} {number : Nat} {line : List Char}
    (h : r.takeLine number line = .ok r') (rest : List (List Char)) :
    r.takeLines number (line :: rest) = r'.takeLines (number + 1) rest := by
  rw [takeLines, h]

theorem takeLine_word (r : Reading) (number : Nat) {line text comment : List Char}
    (h : readEntry line = .word text comment) (hw : IsWord text) :
    r.takeLine number line = .ok (r.extend text comment) :=
  (takeLine_of_word h).2 ⟨hw, rfl⟩

/-- The first `k` words of an image have been read, with the names of their addresses. -/
structure Copied (i : Image) (k : Nat) (r : Reading) : Prop where
  words : r.words.toList = i.words.take k
  origin : r.origin = none
  names : ∀ b : Int, r.names.get? b = if 0 ≤ b ∧ b < k then i.names.get? b else none

theorem copied_start (i : Image) : Copied i 0 start := by
  refine ⟨rfl, rfl, fun b => ?_⟩
  rw [if_neg (by omega)]
  rfl

theorem Copied.extend {i : Image} {k : Nat} {r : Reading} (h : Copied i k r)
    (hk : k < i.words.length) (hn : ∀ x ∈ i.names.get? k, IsName x.toList) :
    Copied i (k + 1) (r.extend i.words[k].toList (i.comment k)) := by
  have hsize : r.words.size = k := by
    rw [← Array.length_toList, h.words, List.length_take]
    omega
  refine ⟨?_, h.origin, fun b => ?_⟩
  · show (r.words.push _).toList = _
    rw [Array.toList_push, h.words, String.ofList_toList, List.take_succ_eq_append_getElem hk]
  · unfold Reading.extend comment
    dsimp only
    rw [h.origin, hsize]
    cases hx : i.names.get? k with
    | none =>
      have hsame : r.names.get? b = if 0 ≤ b ∧ b < ((k + 1 : Nat) : Int) then i.names.get? b
          else none := by
        rw [h.names]
        by_cases hb : b = k
        · rw [hb, hx]
          simp
        · have hiff : (0 ≤ b ∧ b < k) ↔ 0 ≤ b ∧ b < ((k + 1 : Nat) : Int) := by omega
          simp only [hiff]
      exact hsame
    | some x =>
      have hne : x.toList ≠ [] := (hn x hx).ne_nil
      have hput : ((none : Option Nat).isNone && !(Option.getD (some x) "").toList.isEmpty) =
          true := by
        simpa using hne
      rw [if_pos hput, AddressNames.get?_put, Option.getD_some, String.ofList_toList]
      by_cases hb : b = k
      · rw [if_pos hb, hb, if_pos (by omega), hx]
      · have hiff : (0 ≤ b ∧ b < k) ↔ 0 ≤ b ∧ b < ((k + 1 : Nat) : Int) := by omega
        rw [if_neg hb, h.names]
        simp only [hiff]

/-- The lines of the data are read as they are written. -/
theorem Copied.takeLines {i : Image} (hw : ∀ w ∈ i.words, IsWord w.toList)
    (hn : ∀ a x, i.names.get? a = some x → IsName x.toList) {ws : List String} {k : Nat}
    {r : Reading} (h : Copied i k r) (hws : ws <+: i.words.drop k) (number : Nat)
    (rest : List (List Char)) :
    ∃ r', Copied i (k + ws.length) r' ∧
      r.takeLines number
          ((ws.zipIdx k).map (fun (word, a) => (i.dataLine a word).toList) ++ rest) =
        r'.takeLines (number + ws.length) rest := by
  -- Induction on the words that are left; the reading has copied the `k` words before them.
  induction ws generalizing k r number with
  | nil => exact ⟨r, h, rfl⟩
  | cons w ws ih =>
    obtain ⟨t, ht⟩ := hws
    have hk : k < i.words.length := by
      have hlen := congrArg List.length ht
      simp at hlen
      omega
    rw [List.drop_eq_getElem_cons hk, List.cons_append] at ht
    obtain ⟨rfl, htail⟩ := List.cons.inj ht
    have hword : IsWord i.words[k].toList := hw _ (List.getElem_mem hk)
    have hname : ∀ x ∈ i.names.get? k, IsName x.toList := hn k
    have hline := takeLine_word r number (readEntry_dataLine hword hname) hword
    obtain ⟨r', hr', htake⟩ := ih (h.extend hk hname) ⟨t, htail⟩ (number + 1)
    rw [List.length_cons, Nat.add_comm ws.length, ← Nat.add_assoc, ← Nat.add_assoc]
    refine ⟨r', hr', ?_⟩
    rw [List.zipIdx_cons, List.map_cons, List.cons_append, takeLines_cons hline]
    exact htake

/-- Behind the header words are read and no names. -/
theorem takeLines_code {ws : List String} (hw : ∀ w ∈ ws, IsWord w.toList) {r : Reading} {o : Nat}
    (ho : r.origin = some o) (number : Nat) :
    ∃ r', r.takeLines number (ws.map String.toList) = .ok r' ∧
      r'.words.toList = r.words.toList ++ ws ∧ r'.origin = some o ∧ r'.names = r.names := by
  induction ws generalizing r number with
  | nil => exact ⟨r, rfl, (List.append_nil _).symm, ho, rfl⟩
  | cons w ws ih =>
    have hword := hw w List.mem_cons_self
    have hline := takeLine_word r number (readEntry_word hword) hword
    have hnames : (r.extend w.toList []).names = r.names := by
      unfold Reading.extend
      simp
    have hwords : (r.extend w.toList []).words.toList = r.words.toList ++ [w] := by
      show (r.words.push _).toList = _
      rw [Array.toList_push, String.ofList_toList]
    have ho' : (r.extend w.toList []).origin = some o := ho
    obtain ⟨r', hr', hws, horigin, hn⟩ :=
      ih (fun v hv => hw v (List.mem_cons_of_mem w hv)) ho' (number + 1)
    refine ⟨r', ?_, ?_, horigin, hn.trans hnames⟩
    · rw [List.map_cons, takeLines_cons hline]
      exact hr'
    · rw [hws, hwords, List.append_assoc, List.singleton_append]

end Reading

/-! ## Texts -/

theorem toList_toText (i : Image) :
    i.toText.toList = ['\n'].intercalate (i.textLines.map String.toList) ++ ['\n'] := by
  unfold toText
  rw [String.toList_append, String.toList_intercalate]
  rfl

theorem WellFormed.name {i : Image} (h : i.WellFormed) {a : Int} {x : String}
    (hx : i.names.get? a = some x) : (0 ≤ a ∧ a < i.origin) ∧ IsName x.toList :=
  h.names _ (AddressNames.get?_eq_some_iff.1 hx)

theorem WellFormed.cut {i : Image} (h : i.WellFormed) : (i.cut : Int) = i.origin := by
  unfold Image.cut
  rw [if_neg (Int.not_lt.2 h.origin.1)]
  exact Int.toNat_of_nonneg h.origin.1

theorem WellFormed.length_data {i : Image} (h : i.WellFormed) : i.data.length = i.cut := by
  have hcut := h.cut
  have hle := h.origin.2
  exact List.length_take_of_le (by omega)

theorem data_subset (i : Image) : i.data ⊆ i.words := List.take_subset _ _

theorem code_subset (i : Image) : i.code ⊆ i.words := List.drop_subset _ _

/-- What is written for a well-formed image is written line by line. -/
theorem one_line_textLines {i : Image} (h : i.WellFormed) :
    ∀ line ∈ i.textLines, ∀ c ∈ line.toList, Text.isLineBreak c = false := by
  intro line hmem
  rcases List.mem_append.1 hmem with hmem | hmem
  · rcases List.mem_cons.1 hmem with rfl | hmem
    · rw [toList_variables]
      exact one_line_header (by decide) _
    · obtain ⟨⟨word, a⟩, hword, rfl⟩ := List.mem_map.1 hmem
      exact one_line_dataLine (h.words _ (i.data_subset (List.fst_mem_of_mem_zipIdx hword)))
        fun x hx => (h.name hx).2
  · rcases List.mem_cons.1 hmem with rfl | hmem
    · rw [toList_instructions]
      exact one_line_header (by decide) _
    · exact (h.words _ (i.code_subset hmem)).one_line

/-- The lines of the text of a well-formed image are the lines that were written. -/
theorem lines_toText {i : Image} (h : i.WellFormed) :
    Text.lines i.toText.toList = i.textLines.map String.toList := by
  rw [toList_toText]
  refine Text.lines_intercalate (by simp [textLines]) fun l hl => ?_
  obtain ⟨line, hmem, rfl⟩ := List.mem_map.1 hl
  exact one_line_textLines h line hmem

/-- Whatever the image is, its text has the header of the instructions. -/
theorem header_mem_lines (i : Image) :
    ∃ line ∈ Text.lines i.toText.toList, readEntry line = .header := by
  refine ⟨_, ?_, readEntry_instructions i.origin⟩
  rw [toList_toText]
  unfold textLines
  rw [List.map_append, List.map_cons]
  refine Text.mem_lines_intercalate _ ?_ _
  rw [toList_instructions]
  exact one_line_header (by decide) _

namespace Reading

theorem takeLine_nothing (r : Reading) (number : Nat) {line : List Char}
    (h : readEntry line = .nothing) : r.takeLine number line = .ok r := by
  unfold takeLine
  rw [h]

theorem takeLine_header {r : Reading} (ho : r.origin = none) (number : Nat) {line : List Char}
    (h : readEntry line = .header) :
    r.takeLine number line = .ok { r with origin := some r.words.size } := by
  unfold takeLine
  rw [h, ho]

/-- A reading that has copied the data and then reads the rest has read the image. -/
theorem Copied.image {i : Image} (h : i.WellFormed) {r r' : Reading} (hr : Copied i i.cut r)
    (hw : r'.words.toList = r.words.toList ++ i.code) (ho : r'.origin = some r.words.size)
    (hn : r'.names = r.names) : r'.image = i := by
  have hsize : r.words.size = i.cut := by
    rw [← Array.length_toList, hr.words]
    exact h.length_data
  have hwords : r'.words.toList = i.words := by
    rw [hw, hr.words]
    exact i.data_append_code
  have hnames : r'.names = i.names := by
    refine hn.trans (AddressNames.ext_get? fun b => ?_)
    rw [hr.names]
    cases hx : i.names.get? b with
    | none => exact ite_self none
    | some x => exact if_pos (h.cut ▸ (h.name hx).1)
  unfold Reading.image
  rw [hwords, hnames, ho, hsize, Option.getD_some, h.cut]

end Reading

theorem parse_toText {i : Image} (h : i.WellFormed) : (parse i.toText none).result = .ok i := by
  have hpre : i.data <+: i.words.drop 0 := List.take_prefix i.cut i.words
  obtain ⟨r, hr, hdata⟩ := Reading.Copied.takeLines h.words (fun a x hx => (h.name hx).2)
    (Reading.copied_start i) hpre 2
    ((s!"{instructionsHeader} (starting at address {i.origin})" :: i.code).map String.toList)
  have hheader := Reading.takeLine_header hr.origin (2 + i.data.length)
    (readEntry_instructions i.origin)
  obtain ⟨r', hcode, hwords, horigin, hnames⟩ :=
    @Reading.takeLines_code i.code (fun w hw => h.words w (i.code_subset hw))
      { r with origin := some r.words.size } _ rfl (2 + i.data.length + 1)
  have htake : Reading.start.takeLines 1 (Text.lines i.toText.toList) = .ok r' := by
    rw [lines_toText h]
    unfold textLines
    rw [List.map_append, List.map_cons, List.cons_append,
      Reading.takeLines_cons (Reading.start.takeLine_nothing 1 (readEntry_variables _)),
      List.map_map]
    refine hdata.trans ?_
    rw [List.map_cons, Reading.takeLines_cons hheader]
    exact hcode
  rw [Nat.zero_add, h.length_data] at hr
  refine parse_eq_ok_iff.2 ⟨r', htake, Reading.finish_eq_ok_iff.2 ⟨nofun, ?_⟩⟩
  exact (hr.image h hwords horigin hnames).symm

/-- An image is read back from its text exactly if it is well-formed. -/
theorem parse_toText_iff (i : Image) :
    (parse i.toText none).result = .ok i ↔ i.WellFormed :=
  ⟨fun h => wellFormed_of_parse h (header_mem_lines i), parse_toText⟩

/-- The origin of a well-formed image is written, if its words have indices. -/
theorem writeText_of_wellFormed {i : Image} (h : i.WellFormed)
    (hlen : i.words.length < Capacity.indices) : i.writeText = .ok i.toText := by
  obtain ⟨h0, h1⟩ := h.origin
  have hindices : Capacity.indices ≤ 10 ^ 20 := by decide
  have hbefore := @Text.writeNumeral_of_lt (i.origin - 1) 20 (by decide) (by omega)
  have horigin := @Text.writeNumeral_of_lt i.origin 20 (by decide) (by omega)
  unfold writeText checkOrigin
  rw [hbefore, horigin]
  rfl

theorem writeText_parse_iff {i : Image} (hlen : i.words.length < Capacity.indices) :
    (∃ text, i.writeText = .ok text ∧ (parse text none).result = .ok i) ↔ i.WellFormed := by
  constructor
  · rintro ⟨text, hw, hp⟩
    unfold writeText at hw
    cases hc : i.checkOrigin with
    | error e => rw [hc] at hw; cases hw
    | ok u =>
      rw [hc] at hw
      obtain rfl := Except.ok.inj hw
      exact (parse_toText_iff i).1 hp
  · intro h
    exact ⟨i.toText, writeText_of_wellFormed h hlen, parse_toText h⟩

/-! ## Images of programs -/

theorem isWord_render {n : Int} (h : Word.inRange n = true) : IsWord (Word.render n).toList := by
  have hint := Word.intOfNumeral_padded_of_inRange h (Nat.le_refl Word.digits)
  obtain ⟨hlen, hvalue⟩ := Text.intOfNumeral_eq_ok_iff.1 hint
  rw [Word.toList_render]
  refine ⟨Text.padded_ne_nil _ _, fun c => Text.not_blank_of_mem_padded, fun hc => ?_,
    fun _ => ⟨hlen, by rwa [hvalue]⟩⟩
  rcases Text.minus_or_digit_of_mem_padded (hc.subset List.mem_cons_self) with h | h <;> cases h

theorem isName_of_source {s : List Char} (h : Source.isName s = true) : IsName s := by
  obtain ⟨hne, -, hblank⟩ := Source.of_isName h
  exact ⟨hne, Text.oneLine_of_not_blank hblank, Text.trimmed_of_not_blank hblank⟩

end Image

namespace Assembly

open Source

theorem isName_of_declared {file source : String} {lines : List Line}
    (h : readLines file source = lines.map .ok) {x : String} (hx : x ∈ declared lines) :
    isName x.toList = true := by
  obtain ⟨l, hl, hname⟩ := List.mem_filterMap.1 (List.mem_eraseDups.1 hx)
  obtain ⟨d, hd, rfl⟩ := Option.map_eq_some_iff.1 hname
  obtain ⟨raw, -, number, hread⟩ := exists_of_readLines (h ▸ List.mem_map_of_mem hl)
  have hsays := says_of_readLine hread
  rw [Line.statement_of_declared? hd] at hsays
  simp only [reduceCtorEq, false_or] at hsays
  exact isName_of_says hsays

theorem inRange_of_assembles {lines : List Line} {l : Line} {address : Nat} {i : Instruction}
    (h : Assembles lines l address i) : Word.inRange i.word = true := by
  cases h with
  | @bare mnemonic operand extra op hs hm ht =>
    have hpos := op.code_pos
    have hle := op.code_le
    refine Word.inRange_iff.2 ?_
    show -9999 ≤ op.code * 100 + 0 ∧ op.code * 100 + 0 ≤ 9999
    omega
  | operand hs hm ht hx hr => exact hr

/-- The image of an assembled program is well-formed. -/
theorem wellFormed_toImage {file source : String} {lines : List Line} {p : Program}
    (hread : readLines file source = lines.map .ok) (h : Compiled lines p) :
    p.toImage.WellFormed := by
  have hpicture := h.pictured
  refine ⟨?_, ?_, ?_⟩
  · rw [hpicture.origin, hpicture.length]
    omega
  · intro w hw
    rw [← p.toImage.data_append_code, hpicture.data, hpicture.code] at hw
    rcases List.mem_append.1 hw with hw | hw
    · obtain ⟨s, hs, rfl⟩ := List.mem_map.1 hw
      exact Image.isWord_render (h.tables.symbols.initials s hs).2
    · obtain ⟨instr, hi, rfl⟩ := List.mem_map.1 hw
      obtain ⟨k, hk, rfl⟩ := List.mem_iff_getElem.1 hi
      exact Image.isWord_render (inRange_of_assembles (h.assembles k hk (h.length ▸ hk)))
  · intro e he
    rw [hpicture.names] at he
    obtain ⟨⟨x, k⟩, hk, rfl⟩ := List.mem_map.1 he
    obtain ⟨-, hlt, -⟩ := List.mem_zipIdx hk
    rw [hpicture.origin]
    exact ⟨⟨Int.natCast_nonneg k, by simpa using hlt⟩,
      Image.isName_of_source (isName_of_declared hread (List.fst_mem_of_mem_zipIdx hk))⟩

end Assembly

namespace Image

/-- An image is read back from its text exactly if it is well-formed, and images of programs are. A
    text can be written only if the origin is not too long a number, as it never is when the words
    have indices. -/
theorem text_round_trip :
    (∀ i : Image, (parse i.toText none).result = .ok i ↔ i.WellFormed) ∧
    (∀ i : Image, i.words.length < Capacity.indices →
      ((∃ text, i.writeText = .ok text ∧ (parse text none).result = .ok i) ↔ i.WellFormed)) ∧
    ∀ (a : Assembler) (file source : String) (p : Program),
      (a.assemble file source).2.outcome = .ok p → p.toImage.WellFormed := by
  refine ⟨parse_toText_iff, fun i => writeText_parse_iff, fun a file source p h => ?_⟩
  obtain ⟨lines, hread, hc, -⟩ := Assembly.compiled_of_assemble h
  exact Assembly.wellFormed_toImage hread hc

/-- Words with a slash and with a sign, and a name that looks like a comment. -/
def odd : Image := ⟨["0005", "a/b", "+7"], 1, .ofList [(0, "x // y")]⟩

/-- An image that names its origin. -/
def misnamed : Image := ⟨["0005"], 0, .ofList [(0, "x")]⟩

theorem text_round_trip_odd :
    (∃ text, odd.writeText = .ok text ∧ (parse text none).result = .ok odd) ∧
    (parse misnamed.toText none).result ≠ .ok misnamed ∧
    Assembly.tangledProgram.toImage.WellFormed := by
  obtain ⟨hread, hwrite, hmade⟩ := text_round_trip
  refine ⟨(hwrite odd (by decide)).2 (by decide), fun h => ?_, ?_⟩
  · exact absurd ((hread misnamed).1 h) (by decide)
  · have hok : ((Assembler.new false).assemble "tangled" Assembly.tangled).2.outcome.toBool =
        true := by
      decide +kernel
    exact hmade _ _ _ _ (Assembly.eq_ok_of_toBool hok _)

end Image

end DecimalMachine
