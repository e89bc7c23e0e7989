import Mathlib.Logic.Relation
import DecimalMachine.Proofs.AssemblerHistory
import DecimalMachine.Proofs.LineLayout
import DecimalMachine.Proofs.SourceShape
/-
  Edits of a source that do not change its shape: lines without statements that come or go, comments
  behind lines, blanks around them, mnemonics in another case or under another name, declarations that
  move across other lines (`Edit`). A line counts for what it declares and for what it is in the code
  (`sense`), and both depend only on the text that is left of it without its comment and its blanks
  (`sense_congr`). What all lines of a source count for is kept by an edit (`gist_edit`) and so by any
  number of them, either way. Sources of one shape are assembled alike.
-/
namespace DecimalMachine

theorem Line.declared?_congr {l l' : Line} (h : l.statement = l'.statement) :
    l.declared? = l'.declared? := by
  unfold declared?
  rw [h]

theorem Line.item?_congr {l l' : Line} (h : l.statement = l'.statement) : l.item? = l'.item? := by
  unfold item?
  rw [h]

namespace Source

/-! ## What a line counts for -/

/-- The line, wherever it stands, is read as a statement. -/
def Reads (raw : List Char) (st : Statement) : Prop :=
  ∀ file number, ∃ l, readLine file number (String.ofList raw) = .ok l ∧ l.statement = st

theorem reads_of_readLine {file : String} {number : Int} {raw : List Char} {l : Line}
    (h : readLine file number (String.ofList raw) = .ok l) : Reads raw l.statement :=
  readLine_congr h

/-- One look at a line is enough. -/
theorem reads_of_statement {raw : List Char} {st : Statement}
    (h : (readLine "" 1 (String.ofList raw)).toOption.map Line.statement = some st) :
    Reads raw st := by
  cases hl : readLine "" 1 (String.ofList raw) with
  | error e =>
    rw [hl] at h
    cases h
  | ok l =>
    rw [hl] at h
    obtain rfl := Option.some.inj h
    exact reads_of_readLine hl

/-- What the line declares and what it is in the code, if it can be read. -/
def sense (raw : List Char) : Option (Option (String × Int) × Option Item) :=
  (readLine "" 1 (String.ofList raw)).toOption.map fun l => (l.declared?, l.item?)

theorem sense_of_reads {raw : List Char} {l : Line} (h : Reads raw l.statement) :
    sense raw = some (l.declared?, l.item?) := by
  obtain ⟨l', hl', hst⟩ := h "" 1
  unfold sense
  rw [hl', ← Line.declared?_congr hst, ← Line.item?_congr hst]
  rfl

theorem reads_of_sense {raw : List Char} (h : (sense raw).isSome = true) (file : String)
    (number : Int) : ∃ l, readLine file number (String.ofList raw) = .ok l := by
  unfold sense at h
  cases hl : readLine "" 1 (String.ofList raw) with
  | error e =>
    rw [hl] at h
    cases h
  | ok l =>
    obtain ⟨l', hl', -⟩ := readLine_congr hl file number
    exact ⟨l', hl'⟩

/-- What a line counts for depends on what is left of it. -/
theorem sense_eq (raw : List Char) : sense raw =
    if stripComment raw = [] then some (none, none)
    else
      match statement (stripComment raw) with
      | .ok (some st) =>
        let l : Line := ⟨st, "", ⟨"", 1, 1⟩, ""⟩
        some (l.declared?, l.item?)
      | _ => none := by
  have hnil : Text.trim raw = [] → stripComment raw = [] := by
    intro h
    rw [← stripComment_trim, h]
    rfl
  unfold sense readLine
  dsimp only
  rw [String.toList_ofList, stripComment_trim]
  by_cases hblank : Text.trim raw = []
  · rw [hblank, hnil hblank]
    rfl
  · rw [List.isEmpty_eq_false_iff.2 hblank, if_neg Bool.false_ne_true]
    by_cases hcomment : stripComment raw = []
    · rw [hcomment]
      rfl
    · rw [List.isEmpty_eq_false_iff.2 hcomment, if_neg Bool.false_ne_true, if_neg hcomment]
      match statement (stripComment raw) with
      | .error e => rfl
      | .ok none => rfl
      | .ok (some st) => rfl

theorem sense_congr {raw raw' : List Char} (h : stripComment raw = stripComment raw') :
    sense raw = sense raw' := by
  rw [sense_eq, sense_eq, h]

theorem sense_of_silent {raw : List Char} (h : Silent raw) : sense raw = some (none, none) := by
  rw [sense_eq, if_pos (stripComment_of_silent h)]

/-- Where a line with an instruction has its mnemonic. -/
theorem exists_operates {a m r : List Char} {operand : Option String} {extra : List String}
    (h : Reads (a ++ (m ++ r)) (.instruction (String.ofList m) operand extra)) :
    ∃ t, stripComment (a ++ (m ++ r)) = m ++ t ∧ Operates m t := by
  obtain ⟨l, hl, hst⟩ := h "" 1
  have hs := statement_of_readLine hl
  rw [hst, String.toList_ofList, stripComment_trim] at hs
  obtain ⟨hne, hs⟩ := (hs.resolve_left nofun).resolve_left nofun
  exact operates_of_statement hne (Text.trimmed_trim _) hs

/-- A line with another word for the mnemonic of its instruction counts for the same. -/
theorem sense_replace {m m' : List Char} (hm : Replaces m m') {a r t : List Char}
    (ha : ∀ c ∈ a, Text.isBlank c = true) (h : Operates m t)
    (hs : stripComment (a ++ (m ++ r)) = m ++ t) :
    sense (a ++ (m' ++ r)) = sense (a ++ (m ++ r)) := by
  have h' := h.replace hm
  have hne : m ++ t ≠ [] := List.append_ne_nil_of_left_ne_nil h.ne_nil t
  have hne' : m' ++ t ≠ [] := List.append_ne_nil_of_left_ne_nil h'.ne_nil t
  rw [sense_eq, sense_eq, stripComment_replace hm ha h hs, hs, if_neg hne, if_neg hne',
    h.statement, h'.statement]
  unfold Line.declared? Line.item?
  dsimp only
  rw [hm.operation]

/-! ## What a source counts for -/

/-- Whether all lines can be read, and what those that can be read count for. -/
structure Gist where
  readable : Bool
  declared : List (String × Int)
  items : List Item

def gist (lines : List (List Char)) : Gist where
  readable := lines.all fun raw => (sense raw).isSome
  declared := lines.filterMap fun raw => (sense raw).bind Prod.fst
  items := lines.filterMap fun raw => (sense raw).bind Prod.snd

theorem gist_of_zipIdx {raws : List (List Char)} {ls : List Line} {file : String} {start : Nat}
    (h : (raws.zipIdx start).map (fun (raw, i) => readLine file (i + 1) (String.ofList raw)) =
      ls.map .ok) :
    gist raws = ⟨true, ls.filterMap Line.declared?, ls.filterMap Line.item?⟩ := by
  induction raws generalizing ls start with
  | nil =>
    obtain rfl : ls = [] := List.map_eq_nil_iff.1 h.symm
    rfl
  | cons raw raws ih =>
    cases ls with
    | nil => cases h
    | cons l ls =>
      obtain ⟨hl, hls⟩ := List.cons.inj h
      have hgist := ih hls
      have hsense := sense_of_reads (reads_of_readLine hl)
      unfold gist at hgist ⊢
      injection hgist with hreadable hdeclared hitems
      rw [List.all_cons, List.filterMap_cons, List.filterMap_cons, List.filterMap_cons,
        List.filterMap_cons, hsense, hreadable, hdeclared, hitems]
      rfl

theorem gist_of_readLines {file source : String} {ls : List Line}
    (h : readLines file source = ls.map .ok) : gist (Text.lines source.toList) =
      ⟨true, ls.filterMap Line.declared?, ls.filterMap Line.item?⟩ :=
  gist_of_zipIdx h

theorem readable_iff_gist {file source : String} :
    Assembler.Readable file source ↔ (gist (Text.lines source.toList)).readable = true := by
  constructor
  · intro h
    obtain ⟨ls, hls⟩ := Assembler.readable_iff.1 h
    rw [gist_of_readLines (Assembly.readSource_eq_ok_iff.1 hls)]
  · intro h r hr
    obtain ⟨⟨raw, i⟩, hmem, rfl⟩ := List.mem_map.1 hr
    exact reads_of_sense (List.all_eq_true.1 h raw (List.fst_mem_of_mem_zipIdx hmem)) file (i + 1)

/-! ## Edits -/

/-- The line declares a variable. -/
def Declares (raw : List Char) : Prop := ∃ name value, Reads raw (.variable name value)

/-- One line for another: a comment is put behind it, blanks are put around it, or the mnemonic of its
    instruction is spelled in another way. -/
inductive Rewrites : List Char → List Char → Prop
  | comment (raw text : List Char) : Rewrites raw (raw ++ ' ' :: '/' :: '/' :: ' ' :: text)
  | blanks (raw : List Char) {a b : List Char} (ha : ∀ c ∈ a, Text.isBlank c = true)
      (hb : ∀ c ∈ b, Text.isBlank c = true) : Rewrites raw (a ++ raw ++ b)
  | mnemonic {a m m' r : List Char} {operand : Option String} {extra : List String}
      (ha : ∀ c ∈ a, Text.isBlank c = true)
      (h : Reads (a ++ (m ++ r)) (.instruction (String.ofList m) operand extra))
      (hm : Respells m m') : Rewrites (a ++ (m ++ r)) (a ++ (m' ++ r))

/-- One edit of the lines of a source: a line without a statement is put in, a line is rewritten, or a
    declaration moves down across lines that declare nothing. -/
inductive Edit : List (List Char) → List (List Char) → Prop
  | insert (before : List (List Char)) {raw : List Char} (h : Silent raw)
      (behind : List (List Char)) : Edit (before ++ behind) (before ++ raw :: behind)
  | rewrite (before : List (List Char)) {raw raw' : List Char} (h : Rewrites raw raw')
      (behind : List (List Char)) : Edit (before ++ raw :: behind) (before ++ raw' :: behind)
  | move (before : List (List Char)) {raw : List Char} (h : Declares raw)
      {across : List (List Char)} (ha : ∀ x ∈ across, ¬ Declares x) (behind : List (List Char)) :
      Edit (before ++ raw :: (across ++ behind)) (before ++ (across ++ raw :: behind))

theorem sense_rewrite {raw raw' : List Char} (h : Rewrites raw raw') : sense raw = sense raw' := by
  cases h with
  | comment raw text =>
    have hblank : beforeComment (' ' :: '/' :: '/' :: ' ' :: text) = [' '] := rfl
    have hhead : (' ' :: '/' :: '/' :: ' ' :: text).head? ≠ some '/' := fun h => by cases h
    exact sense_congr (stripComment_append raw hhead (hblank ▸ by decide)).symm
  | blanks raw ha hb =>
    refine sense_congr ?_
    rw [stripComment_append_blanks _ hb, stripComment_append_left ha]
  | mnemonic ha h hm =>
    obtain ⟨t, hs, ht⟩ := exists_operates h
    exact (sense_replace (hm.replaces ht.ne_nil ht.not_blank) ha ht hs).symm

theorem sense_of_declares {raw : List Char} (h : Declares raw) :
    ∃ d, sense raw = some (some d, none) := by
  obtain ⟨name, value, h⟩ := h
  obtain ⟨l, -, hst⟩ := h "" 1
  rw [← hst] at h
  refine ⟨(name, value), ?_⟩
  rw [sense_of_reads h]
  unfold Line.declared? Line.item?
  rw [hst]

theorem sense_of_not_declares {raw : List Char} (h : ¬ Declares raw) :
    (sense raw).bind Prod.fst = none := by
  by_cases hs : (sense raw).isSome = true
  · obtain ⟨l, hl⟩ := reads_of_sense hs "" 1
    have hr := reads_of_readLine hl
    rw [sense_of_reads hr]
    cases hd : l.declared? with
    | none => rfl
    | some d => exact absurd ⟨_, _, Line.statement_of_declared? hd ▸ hr⟩ h
  · rw [Option.not_isSome_iff_eq_none.1 hs]
    rfl

/-- What a source counts for is kept by an edit. -/
theorem gist_edit {lines lines' : List (List Char)} (h : Edit lines lines') :
    gist lines = gist lines' := by
  unfold gist
  cases h with
  | insert before h behind =>
    simp only [List.all_append, List.all_cons, List.filterMap_append, List.filterMap_cons,
      sense_of_silent h]
    rfl
  | rewrite before h behind =>
    simp only [List.all_append, List.all_cons, List.filterMap_append, List.filterMap_cons,
      sense_rewrite h]
  | @move before raw h across ha behind =>
    obtain ⟨d, hd⟩ := sense_of_declares h
    have hacross : across.filterMap (fun raw => (sense raw).bind Prod.fst) = [] :=
      List.filterMap_eq_nil_iff.2 fun x hx => sense_of_not_declares (ha x hx)
    simp only [List.all_append, List.all_cons, List.filterMap_append, List.filterMap_cons, hd,
      hacross]
    rfl

theorem gist_edits {lines lines' : List (List Char)} (h : Relation.EqvGen Edit lines lines') :
    gist lines = gist lines' := by
  induction h with
  | rel _ _ h => exact gist_edit h
  | refl _ => rfl
  | symm _ _ _ ih => exact ih.symm
  | trans _ _ _ _ _ ih ih' => exact ih.trans ih'

end Source

namespace Assembly

theorem Agrees.image {r r' : Except AssemblyError Program} (h : Agrees r r') :
    r.toOption.map Program.toImage = r'.toOption.map Program.toImage := by
  cases h with
  | failed _ => rfl
  | made _ _ _ h => exact congrArg some h

end Assembly

namespace Assembler

open Assembly Source

variable {a b : Assembler} (h : a.strict = b.strict) {file file' source source' : String}

include h in
theorem agrees_of_readLines {lines lines' : List Line} (hl : readLines file source = lines.map .ok)
    (hl' : readLines file' source' = lines'.map .ok) (hs : SameShape lines lines') :
    collected a.strict lines = collected b.strict lines' ∧
      Agrees (a.assemble file source).2.outcome (b.assemble file' source').2.outcome := by
  rw [outcome_of_readSource (readSource_eq_ok_iff.2 hl),
    outcome_of_readSource (readSource_eq_ok_iff.2 hl'), ← h]
  exact hs.agrees_ofLines a.strict file file'

theorem readable_edits
    (hedits : Relation.EqvGen Edit (Text.lines source.toList) (Text.lines source'.toList)) :
    Readable file source ↔ Readable file' source' := by
  rw [readable_iff_gist, readable_iff_gist, gist_edits hedits]

theorem sameShape_edits
    (hedits : Relation.EqvGen Edit (Text.lines source.toList) (Text.lines source'.toList))
    {lines lines' : List Line} (hl : readLines file source = lines.map .ok)
    (hl' : readLines file' source' = lines'.map .ok) : SameShape lines lines' := by
  have hgist := gist_edits hedits
  rw [gist_of_readLines hl, gist_of_readLines hl'] at hgist
  injection hgist with _ hdeclared hitems
  exact ⟨hdeclared, hitems⟩

include h in
theorem image_edits
    (hedits : Relation.EqvGen Edit (Text.lines source.toList) (Text.lines source'.toList)) :
    (a.assemble file source).2.outcome.toOption.map Program.toImage =
      (b.assemble file' source').2.outcome.toOption.map Program.toImage := by
  have hreadable : Readable file source ↔ Readable file' source' := readable_edits hedits
  by_cases hr : Readable file source
  · obtain ⟨lines, hl⟩ := readable_iff.1 hr
    obtain ⟨lines', hl'⟩ := readable_iff.1 (hreadable.1 hr)
    rw [readSource_eq_ok_iff] at hl hl'
    obtain ⟨-, hagrees⟩ := agrees_of_readLines h hl hl' (sameShape_edits hedits hl hl')
    exact hagrees.image
  · obtain ⟨err, herr⟩ := assemble_of_not_readable hr
    obtain ⟨err', herr'⟩ := assemble_of_not_readable (hreadable.not.1 hr)
    rw [herr, herr']
    rfl

include h in
/-- Sources whose lines declare the same variables and have the same labels and instructions are
    assembled alike: with as many errors, or to programs that are the same but for the places in the
    source. Any number of edits, either way, lead to such a source: lines that could be read can be
    read still, and there is the same image, or none. -/
theorem assemble_agrees_of_shape (file file' source source' : String) :
    let r := (a.assemble file source).2.outcome
    let r' := (b.assemble file' source').2.outcome
    (∀ lines lines', readLines file source = lines.map .ok →
      readLines file' source' = lines'.map .ok → SameShape lines lines' →
        collected a.strict lines = collected b.strict lines' ∧ Agrees r r') ∧
    (Relation.EqvGen Edit (Text.lines source.toList) (Text.lines source'.toList) →
      (Readable file source ↔ Readable file' source') ∧
      (∀ lines lines', readLines file source = lines.map .ok →
        readLines file' source' = lines'.map .ok → SameShape lines lines') ∧
      r.toOption.map Program.toImage = r'.toOption.map Program.toImage) := by
  intro r r'
  refine ⟨fun lines lines' hl hl' hs => agrees_of_readLines h hl hl' hs, fun hedits => ?_⟩
  exact ⟨readable_edits hedits, fun lines lines' hl hl' => sameShape_edits hedits hl hl',
    image_edits h hedits⟩

/-- A small source, and the same with a comment, with its declaration moved down and its mnemonics
    spelled in other ways. -/
theorem assemble_agrees_of_shape_moved :
    let source := "x = 1\nADD x\nHALT\n"
    let source' := "//\naddm x // y\nx = 1\nHalt\n"
    let r := ((new false).assemble "<input>" source).2.outcome
    let r' := ((new false).assemble "<input>" source').2.outcome
    Relation.EqvGen Edit (Text.lines source.toList) (Text.lines source'.toList) ∧
      r.toOption.map Program.toImage = r'.toOption.map Program.toImage ∧
      (r.toOption.map fun p => p.toImage.words) = some ["0001", "3000", "4300"] := by
  intro source source' r r'
  let x := ['x', ' ', '=', ' ', '1']
  let add := ['A', 'D', 'D', ' ', 'x']
  let addm := ['a', 'd', 'd', 'm', ' ', 'x', ' ', '/', '/', ' ', 'y']
  let halt := ['H', 'A', 'L', 'T']
  have hx : Declares ['x', ' ', '=', ' ', '1'] := ⟨"x", 1, reads_of_statement (by decide +kernel)⟩
  have hacross : ∀ y ∈ [addm], ¬ Declares y := by
    intro y hy h
    have haddm : sense ['a', 'd', 'd', 'm', ' ', 'x', ' ', '/', '/', ' ', 'y'] =
      some (none, some (.code (some .add) (some "x"))) := by decide +kernel
    obtain ⟨d, hd⟩ := sense_of_declares h
    rw [List.mem_singleton.1 hy, haddm] at hd
    cases hd
  have hname : Rewrites add ['a', 'd', 'd', 'm', ' ', 'x'] :=
    @Rewrites.mnemonic [] ['A', 'D', 'D'] ['a', 'd', 'd', 'm'] [' ', 'x'] (some "x") [] nofun
      (reads_of_statement (by decide +kernel)) (.operation .add (by decide) (by decide))
  have hcomment : Rewrites ['a', 'd', 'd', 'm', ' ', 'x'] addm := .comment _ ['y']
  have hcase : Rewrites halt ['H', 'a', 'l', 't'] :=
    @Rewrites.mnemonic [] halt ['H', 'a', 'l', 't'] [] none [] nofun
      (reads_of_statement (by decide +kernel)) (.case (by decide))
  have hedits : Relation.EqvGen Edit [x, add, halt]
      [['/', '/'], addm, x, ['H', 'a', 'l', 't']] := by
    refine .trans _ _ _ (.rel _ _ (.rewrite [x] hname [halt])) ?_
    refine .trans _ _ _ (.rel _ _ (.rewrite [x] hcomment [halt])) ?_
    refine .trans _ _ _ (.rel _ _ (.move [] hx hacross [halt])) ?_
    refine .trans _ _ _ (.rel _ _ (.rewrite [addm, x] hcase [])) ?_
    exact .rel _ _ (.insert [] (by decide) _)
  have hlines : Text.lines source.toList = [x, add, halt] := by decide +kernel
  have hlines' : Text.lines source'.toList = [['/', '/'], addm, x, ['H', 'a', 'l', 't']] := by
    decide +kernel
  rw [← hlines, ← hlines'] at hedits
  obtain ⟨-, hkept⟩ :=
    @assemble_agrees_of_shape (new false) (new false) rfl "<input>" "<input>" source source'
  exact ⟨hedits, (hkept hedits).2.2, by decide +kernel⟩

end Assembler

end DecimalMachine
