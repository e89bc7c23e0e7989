import DecimalMachine.Proofs.AssemblerHistory
import DecimalMachine.Proofs.ImageText
import DecimalMachine.Proofs.SourceLines
/-
  Listings: the listing of an assembled program, line by line. No name and no text in it holds a line
  break, because each is a part of one line of the source (`oneLine_rows`, `oneLine_tableLines`),
  so that its lines are the heading, the rows, a blank line and the tables (`lines_listing`). Row
  after row it shows the words of the image, each with the line of the source that it comes from
  (`assemble_listing`): the first declaration of a variable, since a symbol keeps the place where it
  was declared (`Places`), or the line of an instruction.
-/
namespace DecimalMachine

/-! ## Rows -/

/-- A row of a listing: the address, the word, the number of the line and the text. -/
def listingRow (address : Nat) (word : List Char) (number : Nat) (text : List Char) : List Char :=
  Text.zeroPad 2 address ++ Text.blanks 4 ++ Text.padRight 6 word ++
    ' ' :: Text.padLeft 4 (Nat.toDigits 10 number) ++ Text.blanks 2 ++ text

namespace Program

theorem toList_row (address : Nat) (word : Int) (n : Nat) (text : String) :
    (row address word ((n : Int) + 1) text).toList =
      listingRow address (Word.render word).toList (n + 1) text.toList := by
  have hnumber : Text.int ((n : Int) + 1) = Nat.toDigits 10 (n + 1) := by
    have hpos : ¬ ((n : Int) + 1 < 0) := by omega
    have habs : ((n : Int) + 1).natAbs = n + 1 := by omega
    unfold Text.int Text.zeroPadInt
    rw [if_neg hpos, habs]
    simp [Text.zeroPad, List.leftpad]
  unfold row listingRow address2 Word.render
  rw [← hnumber]
  show (String.ofList _ ++ "    " ++ String.ofList _ ++ " " ++ String.ofList _ ++ "  " ++
    text).toList = _
  simp [Text.blanks]

end Program

namespace Source

/-- The line of a source that the word at an address comes from, by the number of lines before it, and
    the text that is listed for it: the first declaration of a variable with the variable's name, or an
    instruction line without its comment. -/
inductive Listed (lines : List Line) : Nat → Nat → List Char → Prop
  | declaration {before behind : List Line} {l : Line} {address : Nat} {x : String} {v : Int}
      (hl : lines = before ++ l :: behind) (hx : (declared lines)[address]? = some x)
      (hd : l.declared? = some (x, v)) (hfirst : ∀ m ∈ before, ∀ w, m.declared? ≠ some (x, w)) :
      Listed lines address before.length x.toList
  | instruction {before behind : List Line} {l : Line} (hl : lines = before ++ l :: behind)
      (hc : l.isCode = true) :
      Listed lines (origin lines + (code before).length) before.length (stripComment l.raw.toList)

end Source

namespace Assembly

open Source

/-! ## Places of variables -/

/-- The symbols are in the places where their names have been declared first. -/
structure Places (lines : List Line) (symbols : List Symbol) : Prop where
  complete : ∀ l ∈ lines, ∀ d, l.declared? = some d → ∃ s ∈ symbols, s.name = d.1
  first : ∀ s ∈ symbols, ∃ before l behind, lines = before ++ l :: behind ∧
    l.declared? = some (s.name, s.initial) ∧
    (∀ m ∈ before, ∀ w, m.declared? ≠ some (s.name, w)) ∧ s.location = l.location

theorem Places.first_concat {lines : List Line} {symbols : List Symbol} (h : Places lines symbols)
    (l : Line) {s : Symbol} (hs : s ∈ symbols) :
    ∃ before m behind, lines ++ [l] = before ++ m :: behind ∧
      m.declared? = some (s.name, s.initial) ∧
      (∀ k ∈ before, ∀ w, k.declared? ≠ some (s.name, w)) ∧ s.location = m.location := by
  obtain ⟨before, m, behind, rfl, hm⟩ := h.first s hs
  exact ⟨before, m, behind ++ [l], by simp, hm⟩

/-- A line that declares nothing new leaves the symbols in their places. -/
theorem Places.keep {lines : List Line} {symbols : List Symbol} (h : Places lines symbols) {l : Line}
    (hd : ∀ d, l.declared? = some d → ∃ s ∈ symbols, s.name = d.1) :
    Places (lines ++ [l]) symbols := by
  refine ⟨fun m hm d hmd => ?_, fun s => h.first_concat l⟩
  rcases List.mem_append.1 hm with hm | hm
  · exact h.complete m hm d hmd
  · obtain rfl := List.mem_singleton.1 hm
    exact hd d hmd

/-- A new variable is in the place of its line, since no line before declares it. -/
theorem Places.add {lines : List Line} {symbols : List Symbol} (h : Places lines symbols) {l : Line}
    {x : String} {v : Int} (hd : l.declared? = some (x, v)) (hx : ∀ s ∈ symbols, s.name ≠ x) :
    Places (lines ++ [l]) (symbols ++ [⟨x, symbols.length, v, l.location⟩]) := by
  refine ⟨fun m hm d hmd => ?_, fun s hs => ?_⟩
  · rcases List.mem_append.1 hm with hm | hm
    · obtain ⟨s, hs, hname⟩ := h.complete m hm d hmd
      exact ⟨s, List.mem_append_left _ hs, hname⟩
    · obtain rfl := List.mem_singleton.1 hm
      obtain rfl := Option.some.inj (hd.symm.trans hmd)
      exact ⟨_, List.mem_append_right _ List.mem_cons_self, rfl⟩
  · rcases List.mem_append.1 hs with hs | hs
    · exact h.first_concat l hs
    · obtain rfl := List.mem_singleton.1 hs
      refine ⟨lines, l, [], rfl, hd, fun m hm w hmw => ?_, rfl⟩
      obtain ⟨s, hs, hname⟩ := h.complete m hm _ hmw
      exact hx s hs hname

theorem Places.declare {lines : List Line} {symbols : List Symbol} (h : Places lines symbols)
    {l : Line} (hf : ∀ f ∈ (declare symbols l).2, f.isError = false) :
    Places (lines ++ [l]) (declare symbols l).1 := by
  rw [declare_eq] at hf ⊢
  cases hd : l.declared? with
  | none => exact h.keep fun d hmd => by rw [hd] at hmd; cases hmd
  | some d =>
    obtain ⟨x, v⟩ := d
    rw [hd] at hf
    dsimp only at hf ⊢
    by_cases hold : symbols.any (·.name == x) = true
    · rw [if_pos hold]
      refine h.keep fun d hmd => ?_
      obtain rfl := Option.some.inj (hd.symm.trans hmd)
      simpa using hold
    · rw [if_neg hold] at hf ⊢
      cases hr : Word.inRange v with
      | false =>
        rw [hr] at hf
        cases hf _ List.mem_cons_self
      | true => exact h.add hd (by simpa using hold)

theorem Places.declareAll {lines ls : List Line} {symbols : List Symbol} (h : Places lines symbols)
    (hf : ∀ f ∈ (declareAll symbols ls).2, f.isError = false) :
    Places (lines ++ ls) (declareAll symbols ls).1 := by
  induction ls generalizing lines symbols with
  | nil =>
    rw [List.append_nil]
    exact h
  | cons l ls ih =>
    rw [declareAll_cons] at hf
    have hl := h.declare fun f hm => hf f (List.mem_append_left _ hm)
    have hls := ih hl fun f hm => hf f (List.mem_append_right _ hm)
    rw [List.append_assoc] at hls
    exact hls

theorem places_of_ofLines {strict : Bool} {filename : String} {lines : List Line} {p : Program}
    (h : (ofLines strict filename lines).outcome = .ok p) : Places lines p.symbols := by
  obtain ⟨hf, rfl⟩ := of_ofLines h
  have hstart : Places [] [] := ⟨nofun, nofun⟩
  refine hstart.declareAll fun f hm => hf f ?_
  exact List.mem_append_left _ (List.mem_append_left _ (List.mem_append_left _ hm))

end Assembly

/-! ## Lines of a listing -/

open Text (OneLine)

theorem oneLine_listingRow (address : Nat) {word text : List Char} (number : Nat)
    (hw : OneLine word) (ht : OneLine text) : OneLine (listingRow address word number text) := by
  unfold listingRow
  have hnumber : OneLine (' ' :: Text.padLeft 4 (Nat.toDigits 10 number)) :=
    (Text.oneLine_blanks 1).append ((Text.oneLine_toDigits number).padLeft 4)
  exact (((((Text.oneLine_zeroPad 2 address).append (Text.oneLine_blanks 4)).append (hw.padRight 6)).append
    hnumber).append (Text.oneLine_blanks 2)).append ht

namespace Program

theorem oneLine_heading : ∀ r ∈ heading, OneLine r.toList := by decide +kernel

theorem tableLines_ne_nil (p : Program) : p.tableLines.map String.toList ≠ [] := nofun

/-- The last line of the tables is not blank. -/
theorem getLast?_tableLines (p : Program) : [] ∉ (p.tableLines.map String.toList).getLast? := by
  have hcut : p.tableLines =
      ("Symbol Table:" :: (p.symbolsByAddress.map fun s => s!"  {s.name} -> {s.address}") ++ [""]) ++
        "Label Table:" :: p.labelsByAddress.map fun l => s!"  {l.name} -> {l.address}" := by
    simp [tableLines]
  rw [hcut, List.map_append, List.getLast?_append_of_ne_nil _ (by simp)]
  intro hlast
  obtain ⟨r, hr, hnil⟩ := List.mem_map.1 (List.mem_of_mem_getLast? hlast)
  rcases List.mem_cons.1 hr with rfl | hr
  · exact absurd hnil (by decide)
  · obtain ⟨l, -, rfl⟩ := List.mem_map.1 hr
    simp at hnil

/-- A listing is its heading, its rows, a blank line and its tables, if nothing in it breaks a line. -/
theorem lines_listing {p : Program} (hrows : ∀ r ∈ p.rows, OneLine r.toList)
    (htables : ∀ r ∈ p.tableLines, OneLine r.toList) : Text.lines p.listing.toList =
      heading.map String.toList ++ p.rows.map String.toList ++
        [] :: p.tableLines.map String.toList := by
  have hlisting : p.listing.toList = ['\n'].intercalate
      ((heading.map String.toList ++ p.rows.map String.toList ++ [[]]) ++
        p.tableLines.map String.toList) := by
    unfold listing tables
    rw [String.toList_intercalate, List.map_append, List.map_append, ← Text.intercalate_append _ _
      p.tableLines_ne_nil]
    simp [String.toList_intercalate]
  rw [hlisting, Text.lines_intercalate_of_getLast]
  · simp
  · rw [List.getLast?_append_of_ne_nil _ p.tableLines_ne_nil]
    exact p.getLast?_tableLines
  · intro l hl
    simp only [List.mem_append, List.mem_map, List.mem_singleton] at hl
    rcases hl with ((⟨r, hr, rfl⟩ | ⟨r, hr, rfl⟩) | rfl) | ⟨r, hr, rfl⟩
    · exact oneLine_heading r hr
    · exact hrows r hr
    · exact nofun
    · exact htables r hr

end Program

namespace Assembly

open Source

theorem exists_of_code {lines : List Line} {k : Nat} {l : Line} (h : (code lines)[k]? = some l) :
    ∃ before behind, lines = before ++ l :: behind ∧ l.isCode = true ∧ (code before).length = k := by
  induction lines generalizing k with
  | nil => cases h
  | cons m ms ih =>
    unfold code at h ih
    rw [List.filter_cons] at h
    cases hm : m.isCode with
    | false =>
      rw [hm, if_neg Bool.false_ne_true] at h
      obtain ⟨before, behind, rfl, hl, hk⟩ := ih h
      refine ⟨m :: before, behind, rfl, hl, ?_⟩
      unfold code
      rw [List.filter_cons, hm]
      exact hk
    | true =>
      rw [hm, if_pos rfl] at h
      cases k with
      | zero =>
        obtain rfl := Option.some.inj h
        exact ⟨[], ms, rfl, hm, rfl⟩
      | succ k =>
        obtain ⟨before, behind, rfl, hl, hk⟩ := ih h
        refine ⟨m :: before, behind, rfl, hl, ?_⟩
        unfold code
        rw [List.filter_cons, hm]
        exact congrArg Nat.succ hk

/-- The variables of a program that has been assembled are in the order of their addresses. -/
theorem Compiled.rows_eq {lines : List Line} {p : Program} (hc : Compiled lines p) : p.rows =
    (p.symbols.map fun s => Program.row s.address s.initial s.location.line s.name) ++
      p.instructions.map fun i =>
        Program.row i.address i.word i.line.location.line i.line.text := by
  unfold Program.rows
  rw [hc.symbolsByAddress]

theorem Compiled.tableLines_eq {lines : List Line} {p : Program} (hc : Compiled lines p) :
    p.tableLines = "Symbol Table:" :: (p.symbols.map fun s => s!"  {s.name} -> {s.address}") ++
      "" :: "Label Table:" :: p.labelsByAddress.map fun l => s!"  {l.name} -> {l.address}" := by
  unfold Program.tableLines
  rw [hc.symbolsByAddress]

section

variable {file source : String} {lines : List Line} {p : Program}
  (hread : readLines file source = lines.map .ok)
include hread

theorem line_of_cut {before behind : List Line} {l : Line} (hl : lines = before ++ l :: behind) :
    l.location.line = (before.length : Int) + 1 := by
  have hi : lines[before.length]? = some l := by
    rw [hl, List.getElem?_append_right (Nat.le_refl _), Nat.sub_self]
    rfl
  exact congrArg Location.line (of_readLine (readLine_of_readLines hread hi).2).1

/-- Names and the texts of instructions are parts of one line. -/
theorem oneLine_of_listed {address n : Nat} {text : List Char} (h : Listed lines address n text) :
    OneLine text := by
  cases h with
  | declaration hl hx hd hfirst =>
    have hname := isName_of_declared hread (List.mem_of_getElem? hx)
    exact Text.oneLine_of_not_blank (of_isName hname).2.2
  | @instruction before behind l hl hc =>
    have hline : l ∈ lines := hl ▸ List.mem_append_right _ List.mem_cons_self
    exact fun c hc => one_line_raw hread hline c ((stripComment_isInfix _).subset hc)

/-- Every row shows the word at its address and the line that the word comes from. -/
theorem row_listed (hc : Compiled lines p) (hplaces : Places lines p.symbols) {address : Nat}
    (ha : address < p.size) : ∃ word n text, p.toImage.words[address]? = some word ∧
      Listed lines address n text ∧
      (p.rows.map String.toList)[address]? =
        some (listingRow address word.toList (n + 1) text) := by
  have horigin : p.origin = origin lines := hc.tables.symbols.length
  -- In front of the origin the row is that of a variable, and from there on that of an instruction.
  by_cases hdata : address < p.symbols.length
  · obtain ⟨before, l, behind, hl, hd, hfirst, hplace⟩ :=
      hplaces.first _ (List.getElem_mem hdata)
    have haddress : p.symbols[address].address = address := hc.tables.symbols.addresses address hdata
    have hname : (declared lines)[address]? = some p.symbols[address].name := by
      rw [← hc.tables.symbols.names, List.getElem?_map, List.getElem?_eq_getElem hdata]
      rfl
    refine ⟨Word.render p.symbols[address].initial, before.length, p.symbols[address].name.toList,
      ?_, .declaration hl hname hd hfirst, ?_⟩
    · rw [hc.words_eq, List.getElem?_append_left (by simpa using hdata), List.getElem?_map,
        List.getElem?_eq_getElem hdata]
      rfl
    · rw [hc.rows_eq, List.getElem?_map, List.getElem?_append_left (by simpa using hdata),
        List.getElem?_map,
        List.getElem?_eq_getElem hdata, Option.map_some, Option.map_some, haddress, hplace,
        line_of_cut hread hl, Program.toList_row]
  · obtain ⟨k, rfl⟩ := Nat.exists_eq_add_of_le (Nat.le_of_not_lt hdata)
    have hk : k < p.instructions.length := Nat.lt_of_add_lt_add_left ha
    have hk' : k < (code lines).length := hc.length ▸ hk
    have hprod := (hc.assembles k hk hk').produces
    obtain ⟨before, behind, hl, hcode, hbefore⟩ := exists_of_code (List.getElem?_eq_getElem hk')
    obtain ⟨number, hline⟩ := readLine_of_mem hread (hl ▸ List.mem_append_right _ List.mem_cons_self)
    have htext := (code_of_readLine hline hcode).1
    have haddress : origin lines + (code before).length = p.symbols.length + k := by
      rw [← horigin, hbefore]
      rfl
    have hlisted : Listed lines (p.symbols.length + k) before.length
        (stripComment (code lines)[k].raw.toList) := haddress ▸ .instruction hl hcode
    refine ⟨Word.render p.instructions[k].word, before.length, _, ?_, hlisted, ?_⟩
    · rw [hc.words_eq, List.getElem?_append_right (by simp), List.length_map,
        Nat.add_sub_cancel_left, Program.code, List.getElem?_map, List.getElem?_eq_getElem hk]
      rfl
    · rw [hc.rows_eq, List.getElem?_map, List.getElem?_append_right (by simp), List.length_map,
        Nat.add_sub_cancel_left, List.getElem?_map, List.getElem?_eq_getElem hk, Option.map_some,
        Option.map_some, hprod.address, hprod.line, line_of_cut hread hl, Program.toList_row, htext,
        ← horigin]
      rfl

theorem oneLine_rows (hc : Compiled lines p) (hplaces : Places lines p.symbols) :
    ∀ r ∈ p.rows, OneLine r.toList := by
  intro r hr
  obtain ⟨address, ha, rfl⟩ := List.mem_iff_getElem.1 hr
  have hsize : address < p.size := by
    rwa [hc.rows_eq, List.length_append, List.length_map, List.length_map] at ha
  obtain ⟨word, n, text, hword, hlisted, hrow⟩ := row_listed hread hc hplaces hsize
  rw [List.getElem?_map, List.getElem?_eq_getElem ha] at hrow
  rw [Option.some.inj hrow]
  have hnumeral := (wellFormed_toImage hread hc).words _ (List.mem_of_getElem? hword)
  exact oneLine_listingRow _ _ hnumeral.one_line (oneLine_of_listed hread hlisted)

theorem oneLine_tableLines (hc : Compiled lines p) : ∀ r ∈ p.tableLines, OneLine r.toList := by
  have hentry : ∀ {name : String} {address : Nat}, OneLine name.toList →
      OneLine s!"  {name} -> {address}".toList := by
    intro name address hname
    have htext : s!"  {name} -> {address}".toList =
        Text.blanks 2 ++ name.toList ++ " -> ".toList ++ Nat.toDigits 10 address := by
      show ("  " ++ name ++ " -> " ++ toString address).toList = _
      simp [Text.blanks]
    rw [htext]
    exact (((Text.oneLine_blanks 2).append hname).append (by decide)).append
      (Text.oneLine_toDigits address)
  intro r hr
  rw [hc.tableLines_eq] at hr
  simp only [List.mem_append, List.mem_cons, List.mem_map] at hr
  rcases hr with (rfl | ⟨s, hs, rfl⟩) | rfl | rfl | ⟨t, ht, rfl⟩
  · decide
  · have hname := isName_of_declared hread (hc.tables.symbols.mem_declared.2 ⟨s, hs, rfl⟩)
    exact hentry (Text.oneLine_of_not_blank (of_isName hname).2.2)
  · decide
  · decide
  · refine hentry fun c hm => ?_
    have hlabel : t ∈ p.labels := (List.mergeSort_perm ..).mem_iff.1 ht
    obtain ⟨before, l, behind, hl, hd, -⟩ := hc.target hlabel
    have hline : l ∈ lines := hl ▸ List.mem_append_right _ List.mem_cons_self
    obtain ⟨number, hl⟩ := readLine_of_mem hread hline
    exact one_line_raw hread hline c ((infix_of_defined? hl hd).subset hm)

end

/-! ## Listings of sources -/

/-- Behind its heading, the listing of an assembled source has one row for each address, then a blank
    line and the tables. A row shows the address, the word of the image there, and the number of the
    line of the source that the word comes from, with the name of the variable or the text of the
    instruction. -/
theorem assemble_listing (a : Assembler) (filename source : String) (p : Program)
    (h : (a.assemble filename source).2.outcome = .ok p) :
    ∃ lines rows, readLines filename source = lines.map .ok ∧
      (lines.map fun l => l.raw.toList) = Text.lines source.toList ∧
      (a.assemble filename source).1.emit Program.listing = .ok p.listing ∧
      Text.lines p.listing.toList =
        Program.heading.map String.toList ++ rows ++ [] :: p.tableLines.map String.toList ∧
      Program.heading.length = 5 ∧ rows.length = p.size ∧
      ∀ address < p.size, ∃ word n text, p.toImage.words[address]? = some word ∧
        Listed lines address n text ∧
        rows[address]? = some (listingRow address word.toList (n + 1) text) := by
  obtain ⟨lines, hr⟩ := readSource_of_outcome h
  have hread := readSource_eq_ok_iff.1 hr
  have hlines := outcome_of_readSource (a := a) hr ▸ h
  obtain ⟨hc, -⟩ := compiled_of_ofLines hlines
  have hplaces := places_of_ofLines hlines
  refine ⟨lines, p.rows.map String.toList, hread, map_raw_of_readLines hread, ?_, ?_, rfl, ?_, ?_⟩
  · unfold Assembler.emit Assembler.current Assembler.assemble
    rw [hr]
    dsimp only
    rw [hlines]
    rfl
  · exact Program.lines_listing (oneLine_rows hread hc hplaces) (oneLine_tableLines hread hc)
  · rw [hc.rows_eq, List.length_map, List.length_append, List.length_map, List.length_map]
    rfl
  · exact fun address ha => row_listed hread hc hplaces ha

/-- A line separator among the line breaks, comments, a variable that is declared again, and one that
    is declared behind the code. -/
def separated : String :=
  "x = 5 // five\u2028loop:\n  LOAD  x // again\nx 7\nJUMP loop\ny"

def separatedProgram : Program :=
  ((Assembler.new false).assemble "separated" separated).2.outcome.toOption.getD ⟨[], [], [], [], ""⟩

theorem assemble_listing_separated :
    (∃ lines rows, readLines "separated" separated = lines.map .ok ∧
      (lines.map fun l => l.raw.toList) = Text.lines separated.toList ∧
      ((Assembler.new false).assemble "separated" separated).1.emit Program.listing =
        .ok separatedProgram.listing ∧
      Text.lines separatedProgram.listing.toList = Program.heading.map String.toList ++ rows ++
        [] :: separatedProgram.tableLines.map String.toList ∧
      Program.heading.length = 5 ∧ rows.length = separatedProgram.size ∧
      ∀ address < separatedProgram.size, ∃ word n text,
        separatedProgram.toImage.words[address]? = some word ∧ Listed lines address n text ∧
        rows[address]? = some (listingRow address word.toList (n + 1) text)) ∧
    separatedProgram.rows = ["00    0005      1  x", "01    0000      6  y",
      "02    2000      3  LOAD  x", "03    4002      5  JUMP loop"] ∧
    separatedProgram.tableLines = ["Symbol Table:", "  x -> 0", "  y -> 1", "", "Label Table:",
      "  loop -> 2"] := by
  have hok : ((Assembler.new false).assemble "separated" separated).2.outcome.toBool = true := by
    decide +kernel
  have hassembled : ((Assembler.new false).assemble "separated" separated).2.outcome =
      .ok separatedProgram := eq_ok_of_toBool hok _
  obtain ⟨lines, -, hc, -⟩ := compiled_of_assemble hassembled
  refine ⟨assemble_listing _ _ _ _ hassembled, ?_, ?_⟩
  · rw [hc.rows_eq]
    decide +kernel
  · rw [hc.tableLines_eq]
    decide +kernel

end Assembly

end DecimalMachine
