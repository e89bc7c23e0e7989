import DecimalMachine.Proofs.Declarations
import DecimalMachine.Proofs.Reassembly
/-
  The source text of an image that was read: its data words with any comments for names, its code
  words those of instructions. The text can always be written (`source_of_parts`). It assembles to
  the numbers of the image, with the same origin, exactly if every declaration in it declares a
  variable with the value of its word and no two declare the same (`Image.DeclaresApart`). Where no
  comment begins in a name, that is to say that the names are names of variables and differ
  (`Image.declaresApart_iff`).
-/
namespace DecimalMachine

open Source

/-- Words that are numerals, and the numbers that they stand for. -/
abbrev Word.Numbers (words : List String) (ns : List Int) : Prop :=
  List.Forall₂ (fun w n => Word.parse w = .ok (some n)) words ns

theorem Word.exists_numbers {words : List String}
    (h : ∀ w ∈ words, ∃ n, Word.parse w = .ok (some n)) : ∃ ns, Word.Numbers words ns := by
  induction words with
  | nil => exact ⟨[], .nil⟩
  | cons w words ih =>
    obtain ⟨⟨n, hn⟩, hrest⟩ := List.forall_mem_cons.1 h
    obtain ⟨ns, hns⟩ := ih hrest
    exact ⟨n :: ns, .cons hn hns⟩

theorem Word.numbers_unique {words : List String} {ns ns' : List Int}
    (h : Word.Numbers words ns) (h' : Word.Numbers words ns') : ns = ns' := by
  refine List.right_unique_forall₂' (fun w n n' hn hn' => ?_) h h'
  exact Option.some.inj (Except.ok.inj (hn.symm.trans hn'))

namespace Image

/-! ## Images that were read -/

/-- What is read consists of words and names, wherever the header stands. -/
theorem good_of_parse {text : String} {capacity : Option Int} {i : Image}
    (h : (parse text capacity).result = .ok i) :
    (∀ w ∈ i.words, IsWord w.toList) ∧ ∀ a x, i.names.get? a = some x → IsName x.toList := by
  obtain ⟨r, hr, hi⟩ := parse_eq_ok_iff.1 h
  obtain ⟨-, rfl⟩ := Reading.finish_eq_ok_iff.1 hi
  have hgood := Reading.good_start.takeLines (fun _ => Text.not_lineBreak_of_mem_lines) hr
  exact ⟨hgood.words, fun a x hx => (hgood.names _ (AddressNames.get?_eq_some_iff.1 hx)).2⟩

theorem length_data_of_placed {i : Image} (h : i.Placed) : (i.data.length : Int) = i.origin := by
  obtain ⟨h0, h1⟩ := h
  have hcut : (i.cut : Int) = i.origin := by
    unfold cut
    rw [if_neg (Int.not_lt.2 h0)]
    exact Int.toNat_of_nonneg h0
  have hdata : i.data.length = i.cut := List.length_take_of_le (by omega)
  omega

theorem inRange_of_parse {w : String} (hw : IsWord w.toList) {n : Int}
    (hn : Word.parse w = .ok (some n)) : Word.inRange n = true := by
  have htrim := Text.trim_of_trimmed hw.trimmed
  unfold Word.parse Text.readNumeral at hn
  rw [htrim] at hn
  split at hn
  · rename_i hnum
    cases hi : Text.intOfNumeral w.toList with
    | error e => rw [hi] at hn; cases hn
    | ok m =>
      rw [hi] at hn
      cases hn
      obtain ⟨-, rfl⟩ := Text.intOfNumeral_eq_ok_iff.1 hi
      exact (hw.fits hnum).2
  · cases hn

theorem inRange_of_numbers {words : List String} {ns : List Int} (h : Word.Numbers words ns)
    (hw : ∀ w ∈ words, IsWord w.toList) : ∀ n ∈ ns, Word.inRange n = true := by
  induction h with
  | nil => exact nofun
  | cons hn _ ih =>
    obtain ⟨hfirst, hrest⟩ := List.forall_mem_cons.1 hw
    exact List.forall_mem_cons.2 ⟨inRange_of_parse hfirst hn, ih hrest⟩

theorem exists_of_expressible {w : String} (h : expressible w = true) :
    ∃ n, Word.parse w = .ok (some n) := by
  unfold expressible at h
  split at h
  · exact ⟨_, by assumption⟩
  · cases h

theorem expressible_of_parse {w : String} {n : Int} (h : Word.parse w = .ok (some n)) :
    expressible w = Word.expressible n := by
  unfold expressible
  rw [h]

theorem expressible_of_numbers {words : List String} {ns : List Int} (h : Word.Numbers words ns)
    (hw : ∀ w ∈ words, expressible w = true) : ∀ n ∈ ns, Word.expressible n = true := by
  induction h with
  | nil => exact nofun
  | cons hn _ ih =>
    obtain ⟨hfirst, hrest⟩ := List.forall_mem_cons.1 hw
    exact List.forall_mem_cons.2 ⟨expressible_of_parse hn ▸ hfirst, ih hrest⟩

/-- The numbers of an image are those of its data and of its code. -/
theorem numbers_of_parts {i : Image} {vs ws : List Int} (hv : Word.Numbers i.data vs)
    (hw : Word.Numbers i.code ws) : i.numbers = .ok ((vs ++ ws).map some) := by
  refine numbers_eq_ok_iff.2 ?_
  rw [← i.data_append_code, List.forall₂_map_right_iff]
  exact List.rel_append hv hw

end Image

/-- A word of an instruction is not negative, as the codes of operations are not. -/
theorem Word.nonneg_of_expressible {w : Int} (h : Word.expressible w = true) : 0 ≤ w := by
  obtain ⟨op, hop, -⟩ := Word.statement_of_expressible h
  have hcode := Opcode.code_of_ofCode? hop
  have hpos := op.code_pos
  have hbound := (Word.split_operand_bounds w).1
  have hjoin := Word.join_split w
  unfold Word.join at hjoin
  omega

namespace Disassembler

/-! ## Writing the source text -/

/-- The declarations of data words that are numerals. -/
theorem declarations_of_numbers (i : Image) {words : List String} {vs : List Int}
    (h : Word.Numbers words vs) (start : Nat) :
    (declarations i start words).failure = none ∧ (declarations i start words).lines =
      (vs.zipIdx start).map fun (v, a) => s!"{dataName i a} = {v}" := by
  induction h generalizing start with
  | nil => exact ⟨rfl, rfl⟩
  | @cons w v words vs hv _ ih =>
    obtain ⟨hfail, hlines⟩ := ih (start + 1)
    rw [declarations, hv]
    exact ⟨hfail, congrArg _ hlines⟩

/-- The source line of a word does not depend on how the word is written. -/
theorem sourceLine_of_expressible (names : AddressNames) (text text' : String) {w : Int}
    (h : Word.expressible w = true) (a : Int) :
    (sourceLine (Decoded.ofValue names text (some w) a)).1 =
      (sourceLine (Decoded.ofValue names text' (some w) a)).1 := by
  obtain ⟨op, hop, hform⟩ := Word.statement_of_expressible h
  unfold sourceLine instruction? Decoded.opcode? Decoded.ofValue
  simp only [hop, Option.isSome_some, if_true]
  rcases hform with ⟨ht, -⟩ | ⟨ht, hzero, -⟩
  · rw [if_pos ht]
  · rw [if_neg (Bool.eq_false_iff.1 ht), if_pos hzero]

theorem ofText_of_parse (names : AddressNames) {s : String} {w : Int}
    (h : Word.parse s = .ok (some w)) (a : Int) : Decoded.ofText names s a =
      .ok (Decoded.ofValue names (String.ofList (Text.trim s.toList)) (some w) a) := by
  have htrim : Word.parse (String.ofList (Text.trim s.toList)) = Word.parse s := by
    unfold Word.parse Text.readNumeral
    rw [String.toList_ofList, Text.trim_of_trimmed (Text.trimmed_trim _)]
  unfold Decoded.ofText
  dsimp only
  rw [htrim, h]
  rfl

/-- The words of instructions are taken apart one by one, however they are written. -/
theorem ofTexts_of_numbers (names : AddressNames) {words : List String} {ws : List Int}
    (h : Word.Numbers words ws) (he : ∀ w ∈ ws, Word.expressible w = true) (start : Int) :
    ∃ ds, Decoded.ofTexts names start words = .ok ds ∧
      List.Forall₂ Spells (ds.map fun d => (sourceLine d).1) (ws.map Word.statement) := by
  induction h generalizing start with
  | nil => exact ⟨[], rfl, .nil⟩
  | @cons s w words ws hw _ ih =>
    obtain ⟨hfirst, hrest⟩ := List.forall_mem_cons.1 he
    obtain ⟨ds, hds, hspells⟩ := ih hrest (start + 1)
    have hline := spells_sourceLine names w start
    rw [sourceLine_of_expressible names _ (String.ofList (Text.trim s.toList)) hfirst] at hline
    refine ⟨_ :: ds, ?_, .cons hline hspells⟩
    rw [ofTexts_cons, ofText_of_parse names hw, hds]
    rfl

/-- The source text of an image is written, with a line for every word. -/
theorem source_of_parts (d : Disassembler) {i : Image} {vs ws : List Int} (h0 : 0 ≤ i.origin)
    (hv : Word.Numbers i.data vs) (hw : Word.Numbers i.code ws)
    (he : ∀ w ∈ ws, Word.expressible w = true) :
    ∃ texts : List String, List.Forall₂ Spells texts (ws.map Word.statement) ∧
      (d.source i).2.2 =
        .ok ("\n".intercalate ((declarations i 0 i.data).lines ++ texts) ++ "\n") := by
  obtain ⟨ds, hds, hspells⟩ := ofTexts_of_numbers (d.learn i).names hw he i.origin
  exact ⟨_, hspells, source_eq_ok h0 (declarations_of_numbers i hv 0).1 hds⟩

end Disassembler

namespace Image

/-! ## The declarations of an image -/

/-- The names that the data words are declared by. -/
def dataNames (i : Image) : List String :=
  (List.range i.data.length).map (Disassembler.dataName i)

/-- Every declaration that is written for the image declares a variable with the value of its word,
    and no two declare the same. -/
def DeclaresApart (i : Image) : Prop :=
  ∃ pairs : List (String × Int),
    List.Forall₂ Spells (Disassembler.declarations i 0 i.data).lines
      (pairs.map fun d => .variable d.1 d.2) ∧
    Word.Numbers i.data (pairs.map Prod.snd) ∧ (pairs.map Prod.fst).Nodup

theorem toList_made (a : Nat) : s!"v{twoDigits a}".toList = 'v' :: Text.zeroPad 2 a := by
  show ("v" ++ twoDigits a).toList = _
  unfold twoDigits Text.zeroPadInt
  rw [if_neg (by omega)]
  simp

/-- A name that is made from an address is a name of a variable. -/
theorem isName_made (a : Nat) : Source.isName s!"v{twoDigits a}".toList = true := by
  have hstart : isNameStart 'v' = true := by decide
  rw [toList_made]
  refine Bool.and_eq_true_iff.2 ⟨hstart, List.all_eq_true.2 fun c hc => ?_⟩
  have hdigit := Text.isDigit_of_mem_zeroPad hc
  simp [isNameRest, Char.isAlphanum, hdigit]

theorem isName_dataName {i : Image} (hn : ∀ a x, i.names.get? a = some x → IsName x.toList)
    (a : Nat) : IsName (Disassembler.dataName i a).toList := by
  unfold Disassembler.dataName
  cases hx : i.names.get? (a : Int) with
  | none => exact isName_of_source (isName_made a)
  | some x =>
    dsimp only
    split
    · exact isName_of_source (isName_made a)
    · exact hn a x hx

/-- What a declaration is written as is one line. -/
theorem one_line_declaration {name : String} (h : IsName name.toList) (n : Int) :
    ∀ c ∈ s!"{name} = {n}".toList, Text.isLineBreak c = false := by
  rw [toList_declaration]
  have hsep : Text.OneLine [' ', '=', ' '] := by decide
  exact (Text.OneLine.append h.one_line hsep).append (Text.oneLine_padded 0 n)

section

variable {i : Image} (hn : ∀ a x, i.names.get? a = some x → IsName x.toList)

include hn

theorem spells_declarations_iff {vs : List Int} (hr : ∀ v ∈ vs, Word.inRange v = true)
    {start : Nat} (hc : ∀ a ∈ List.range' start vs.length,
      ¬ ['/', '/'] <:+: (Disassembler.dataName i a).toList) {pairs : List (String × Int)} :
    List.Forall₂ Spells ((vs.zipIdx start).map fun (v, a) => s!"{Disassembler.dataName i a} = {v}")
        (pairs.map fun d => .variable d.1 d.2) ↔
      (∀ a ∈ List.range' start vs.length,
        Source.isName (Disassembler.dataName i a).toList = true) ∧
      pairs = (vs.zipIdx start).map fun (v, a) => (Disassembler.dataName i a, v) := by
  induction vs generalizing start pairs with
  | nil =>
    constructor
    · intro h
      exact ⟨nofun, List.map_eq_nil_iff.1 (List.forall₂_nil_left_iff.1 h)⟩
    · rintro ⟨-, rfl⟩
      exact .nil
  | cons v vs ih =>
    rw [List.length_cons, List.range'_succ] at hc ⊢
    obtain ⟨hv, hr⟩ := List.forall_mem_cons.1 hr
    obtain ⟨hfirst, hc⟩ := List.forall_mem_cons.1 hc
    have hname := isName_dataName hn start
    rw [List.zipIdx_cons, List.map_cons, List.map_cons, List.forall_mem_cons]
    constructor
    · intro h
      cases pairs with
      | nil => cases h
      | cons d pairs =>
        rw [List.map_cons] at h
        obtain ⟨hline, hrest⟩ := List.forall₂_cons.1 h
        obtain ⟨hnames, rfl⟩ := (ih hr hc).1 hrest
        obtain ⟨hisName, hx⟩ := isName_of_spells hname.ne_nil hname.trimmed hfirst hline
        have hsame := hline.unique (spells_declaration hisName hv)
        obtain ⟨x, n⟩ := d
        obtain ⟨rfl, rfl⟩ := Statement.variable.inj hsame
        exact ⟨⟨hisName, hnames⟩, rfl⟩
    · rintro ⟨⟨hisName, hnames⟩, rfl⟩
      rw [List.map_cons]
      exact .cons (spells_declaration hisName hv) ((ih hr hc).2 ⟨hnames, rfl⟩)

/-- If no comment begins in a name, it is enough to look at the names. -/
theorem declaresApart_iff {vs : List Int} (hv : Word.Numbers i.data vs)
    (hr : ∀ v ∈ vs, Word.inRange v = true)
    (hc : ∀ x ∈ i.dataNames, ¬ ['/', '/'] <:+: x.toList) :
    i.DeclaresApart ↔
      (∀ x ∈ i.dataNames, Source.isName x.toList = true) ∧ i.dataNames.Nodup := by
  have hlines := (Disassembler.declarations_of_numbers i hv 0).2
  have hrange : List.range i.data.length = List.range' 0 vs.length := by
    rw [hv.length_eq, List.range_eq_range']
  unfold DeclaresApart
  unfold dataNames at hc ⊢
  rw [hrange] at hc ⊢
  rw [List.forall_mem_map] at hc
  rw [hlines, List.forall_mem_map]
  have hfst : ((vs.zipIdx 0).map fun (v, a) => (Disassembler.dataName i a, v)).map Prod.fst =
      (List.range' 0 vs.length).map (Disassembler.dataName i) := by
    rw [← List.zipIdx_map_snd 0 vs, List.map_map, List.map_map]
    rfl
  have hsnd : ((vs.zipIdx 0).map fun (v, a) => (Disassembler.dataName i a, v)).map Prod.snd =
      vs := by
    rw [List.map_map]
    exact List.zipIdx_map_fst 0 vs
  constructor
  · rintro ⟨pairs, hspells, -, hnodup⟩
    obtain ⟨hnames, rfl⟩ := (spells_declarations_iff hn hr hc).1 hspells
    exact ⟨hnames, hfst ▸ hnodup⟩
  · rintro ⟨hnames, hnodup⟩
    exact ⟨_, (spells_declarations_iff hn hr hc).2 ⟨hnames, rfl⟩, hsnd.symm ▸ hv,
      hfst.symm ▸ hnodup⟩

end

end Image

namespace Assembly

/-! ## The program of the source text -/

/-- The image of a program has the first values of the variables and the words for numbers. -/
theorem Compiled.numbers {lines : List Line} {p : Program} (h : Compiled lines p) :
    p.toImage.numbers = .ok ((p.symbols.map Symbol.initial ++
      p.instructions.map Instruction.word).map some) := by
  refine Image.numbers_of_parts ?_ ?_
  · rw [h.pictured.data]
    refine List.forall₂_map_left_iff.2 (List.forall₂_map_right_iff.2 (List.forall₂_same.2 ?_))
    exact fun s hs => Word.parse_render_of_inRange (h.tables.symbols.initials s hs).2
  · rw [h.pictured.code]
    refine List.forall₂_map_left_iff.2 (List.forall₂_map_right_iff.2 (List.forall₂_same.2 ?_))
    exact fun i hi =>
      Word.parse_render_of_inRange (h.word_bounds i.word (List.mem_map_of_mem hi)).2

/-- If all are left when duplicates are erased, there were none. -/
theorem nodup_of_length_eraseDups {xs : List String} (h : xs.length ≤ xs.eraseDups.length) :
    xs.Nodup :=
  have hperm := (List.subperm_of_subset (nodup_eraseDups xs)
    fun _ => List.mem_eraseDups.1).perm_of_length_le h
  hperm.nodup_iff.1 (nodup_eraseDups xs)

/-- Lines that declare as many variables as there are lines declare one each. -/
theorem statements_of_declared? {lines : List Line}
    (h : lines.length ≤ (lines.filterMap Line.declared?).length) :
    lines.map Line.statement =
      (lines.filterMap Line.declared?).map fun d => .variable d.1 d.2 := by
  induction lines with
  | nil => rfl
  | cons l lines ih =>
    rw [List.filterMap_cons] at h ⊢
    cases hd : l.declared? with
    | none =>
      rw [hd, List.length_cons] at h
      have hle := List.length_filterMap_le Line.declared? lines
      dsimp only at h
      omega
    | some d =>
      rw [hd] at h
      rw [List.map_cons, List.map_cons, Line.statement_of_declared? hd,
        ih (Nat.le_of_succ_le_succ h)]

/-- Lines that declare as many different variables as there are lines do nothing else. -/
theorem declares_of_length {lines : List Line}
    (h : lines.length ≤ ((lines.filterMap Line.declared?).map Prod.fst).eraseDups.length) :
    (lines.map Line.statement =
      (lines.filterMap Line.declared?).map fun d => .variable d.1 d.2) ∧
    ((lines.filterMap Line.declared?).map Prod.fst).Nodup := by
  have hle := length_eraseDups_le ((lines.filterMap Line.declared?).map Prod.fst)
  have hfilter := List.length_filterMap_le Line.declared? lines
  have hmap : ((lines.filterMap Line.declared?).map Prod.fst).length =
      (lines.filterMap Line.declared?).length := List.length_map _
  exact ⟨statements_of_declared? (by omega), nodup_of_length_eraseDups (by omega)⟩

/-- Lines that are written as declarations and as words restate a program, if they declare as many
    variables as there are declarations. -/
theorem restates_of_length {decls texts : List String} {ws : List Int} {lines : List Line}
    (h : List.Forall₂ Spells (decls ++ texts) (lines.map Line.statement))
    (ht : List.Forall₂ Spells texts (ws.map Word.statement))
    (hlen : decls.length ≤ (declared lines).length) :
    ∃ pairs : List (String × Int),
      List.Forall₂ Spells decls (pairs.map fun d => .variable d.1 d.2) ∧
      (pairs.map Prod.fst).Nodup ∧ Restates pairs (ws.filter Word.expressible) lines := by
  have hfront := List.forall₂_take decls.length h
  have hback := List.forall₂_drop decls.length h
  rw [List.take_left, ← List.map_take] at hfront
  rw [List.drop_left, ← List.map_drop] at hback
  have hwords := forall₂_spells_unique hback ht
  have hlines := List.take_append_drop decls.length lines
  have hdeclares : lines.filterMap Line.declared? =
      (lines.take decls.length).filterMap Line.declared? := by
    rw [← hlines, List.filterMap_append, (restates_words hwords).declares, List.append_nil, hlines]
  -- There are no more lines than declarations, so each of them declares a variable of its own.
  unfold declared at hlen
  rw [← List.map_filterMap, hdeclares] at hlen
  have htake := List.length_take_le decls.length lines
  obtain ⟨hstatements, hnodup⟩ := declares_of_length (Nat.le_trans htake hlen)
  refine ⟨_, hstatements ▸ hfront, hnodup, restates_lines ?_⟩
  rw [← hstatements, ← hwords, ← List.map_append, hlines]

end Assembly

namespace Image

open Assembly

variable {i : Image} {vs ws : List Int} {texts : List String}

/-- Declarations apart from each other give a program with the numbers of the image. -/
theorem reassembles_of_declaresApart (hi : i.Placed) (hv : Word.Numbers i.data vs)
    (hr : ∀ v ∈ vs, Word.inRange v = true) (hw : Word.Numbers i.code ws)
    (he : ∀ w ∈ ws, Word.expressible w = true ∧ 0 ≤ w ∧ Word.inRange w = true)
    (ht : List.Forall₂ Spells texts (ws.map Word.statement)) (h : i.DeclaresApart)
    (b : Assembler) (file : String) :
    ∃ q, (b.assemble file ("\n".intercalate
        ((Disassembler.declarations i 0 i.data).lines ++ texts) ++ "\n")).2.outcome = .ok q ∧
      q.toImage.origin = i.origin ∧ q.toImage.numbers = i.numbers := by
  obtain ⟨pairs, hspells, hnums, hnodup⟩ := h
  have hsnd : pairs.map Prod.snd = vs := Word.numbers_unique hnums hv
  obtain ⟨lines, hread, hrestates⟩ := restates_of_spells (List.rel_append hspells ht) file
  rw [List.filter_eq_self.2 fun w hm => (he w hm).1] at hrestates
  obtain ⟨q, hout, hq, hsymbols, hwords⟩ := compiled_of_restates hrestates hnodup
    (fun d hd => hr _ (hsnd ▸ List.mem_map_of_mem hd)) he b.strict file
  have hinitials : q.symbols.map Symbol.initial = vs := by
    rw [← hsnd, ← hsymbols, List.map_map]
    rfl
  refine ⟨q, ?_, ?_, ?_⟩
  · rw [outcome_of_readSource (readSource_eq_ok_iff.2 hread), hout]
  · rw [← length_data_of_placed hi, hv.length_eq, ← hinitials, List.length_map]
    rfl
  · rw [hq.numbers, numbers_of_parts hv hw, hinitials, hwords]

theorem declaresApart_of_no_data (h : i.data = []) : i.DeclaresApart := by
  refine ⟨[], ?_, ?_, List.nodup_nil⟩
  · rw [h]
    exact .nil
  · rw [h]
    exact .nil

/-- Each declaration is one line. -/
theorem one_line_declarations (hv : Word.Numbers i.data vs)
    (hn : ∀ a x, i.names.get? a = some x → IsName x.toList) :
    ∀ t ∈ (Disassembler.declarations i 0 i.data).lines,
      ∀ c ∈ t.toList, Text.isLineBreak c = false := by
  rw [(Disassembler.declarations_of_numbers i hv 0).2]
  intro t hmem
  obtain ⟨⟨v, a⟩, -, rfl⟩ := List.mem_map.1 hmem
  exact one_line_declaration (isName_dataName hn a) v

theorem length_declarations (hv : Word.Numbers i.data vs) :
    (Disassembler.declarations i 0 i.data).lines.length = i.data.length := by
  rw [(Disassembler.declarations_of_numbers i hv 0).2, List.length_map, List.length_zipIdx,
    hv.length_eq]

/-- A program with the numbers and the origin of the image comes from declarations apart. -/
theorem declaresApart_of_reassembles (hi : i.Placed) (hv : Word.Numbers i.data vs)
    (hn : ∀ a x, i.names.get? a = some x → IsName x.toList) (hw : Word.Numbers i.code ws)
    (ht : List.Forall₂ Spells texts (ws.map Word.statement)) {b : Assembler} {file : String}
    {q : Program} (hout : (b.assemble file ("\n".intercalate
        ((Disassembler.declarations i 0 i.data).lines ++ texts) ++ "\n")).2.outcome = .ok q)
    (ho : q.toImage.origin = i.origin) (hnums : q.toImage.numbers = i.numbers) :
    i.DeclaresApart := by
  by_cases hdata : i.data = []
  · exact declaresApart_of_no_data hdata
  have hcount := length_declarations hv
  have hne : (Disassembler.declarations i 0 i.data).lines ++ texts ≠ [] := by
    refine List.append_ne_nil_of_left_ne_nil (fun hnil => hdata ?_) _
    rw [hnil] at hcount
    exact List.eq_nil_of_length_eq_zero hcount.symm
  have hone : ∀ t ∈ (Disassembler.declarations i 0 i.data).lines ++ texts,
      ∀ c ∈ t.toList, Text.isLineBreak c = false := fun t hmem =>
    (List.mem_append.1 hmem).elim (one_line_declarations hv hn t)
      fun hmem => one_line_of_spells ht _ (List.mem_map_of_mem hmem)
  obtain ⟨lines, hread, hq, -⟩ := compiled_of_assemble hout
  have hlen : (Disassembler.declarations i 0 i.data).lines.length ≤ (declared lines).length := by
    have horigin := hq.pictured.origin
    have hplace := length_data_of_placed hi
    omega
  obtain ⟨pairs, hspells, hnodup, hrestates⟩ :=
    restates_of_length (spells_of_readLines hne hone hread) ht hlen
  have hsymbols := hrestates.symbols_eq hnodup hq.tables.symbols
  have hinitials : q.symbols.map Symbol.initial = pairs.map Prod.snd := by
    rw [← hsymbols, List.map_map]
    rfl
  -- The first values of the variables are the front of the numbers, since they are as many.
  rw [hq.numbers, numbers_of_parts hv hw, hinitials] at hnums
  have hall := List.map_injective_iff.2 (fun _ _ h => Option.some.inj h) (Except.ok.inj hnums)
  have hsame : (pairs.map Prod.snd).length = vs.length := by
    have hpairs := hspells.length_eq
    rw [List.length_map] at hpairs
    rw [List.length_map, ← hpairs, hcount, hv.length_eq]
  refine ⟨pairs, hspells, ?_, hnodup⟩
  rw [(List.append_inj hall hsame).1]
  exact hv

end Image

namespace Disassembler

/-! ## The whole way -/

/-- An image is read from a text, with numbers for its data and words of instructions for its code.
    Its source text assembles to the same numbers with the same origin exactly if the declarations
    of its data words stand apart; where no comment begins in a name, if the names are names of
    variables and no two are the same. -/
theorem source_keeps_numbers (text : String) (capacity : Option Int) (i : Image)
    (h : (Image.parse text capacity).result = .ok i)
    (hd : ∀ w ∈ i.data, ∃ n, Word.parse w = .ok (some n))
    (hc : ∀ w ∈ i.code, Image.expressible w = true) (d : Disassembler) :
    ∃ source, (d.source i).2.2 = .ok source ∧
      (∀ (b : Assembler) (name : String), (∃ q, (b.assemble name source).2.outcome = .ok q ∧
        q.toImage.origin = i.origin ∧ q.toImage.numbers = i.numbers) ↔ i.DeclaresApart) ∧
      ((∀ x ∈ i.dataNames, ¬ ['/', '/'] <:+: x.toList) → (i.DeclaresApart ↔
        (∀ x ∈ i.dataNames, Source.isName x.toList = true) ∧ i.dataNames.Nodup)) := by
  have hplaced := Image.placed_of_parse h
  obtain ⟨hwords, hnames⟩ := Image.good_of_parse h
  obtain ⟨vs, hv⟩ := Word.exists_numbers hd
  obtain ⟨ws, hw⟩ := Word.exists_numbers fun w hmem => Image.exists_of_expressible (hc w hmem)
  have hvs : ∀ v ∈ vs, Word.inRange v = true :=
    Image.inRange_of_numbers hv fun w hmem => hwords w (i.data_subset hmem)
  have hws : ∀ w ∈ ws, Word.inRange w = true :=
    Image.inRange_of_numbers hw fun w hmem => hwords w (i.code_subset hmem)
  have he := Image.expressible_of_numbers hw hc
  obtain ⟨texts, htexts, hsource⟩ := source_of_parts d hplaced.1 hv hw he
  refine ⟨_, hsource, fun b name => ⟨?_, fun hapart => ?_⟩, Image.declaresApart_iff hnames hv hvs⟩
  · rintro ⟨q, hout, horigin, hnums⟩
    exact Image.declaresApart_of_reassembles hplaced hv hnames hw htexts hout horigin hnums
  · exact Image.reassembles_of_declaresApart hplaced hv hvs hw
      (fun w hmem => ⟨he w hmem, Word.nonneg_of_expressible (he w hmem), hws w hmem⟩) htexts
      hapart b name

/-- Data words with and without a comment, and one that is longer than it need be. -/
def commented : String :=
  "0007  // count\n-12\n+00000003  // Total_2\n// Instructions\n2000\n3101\n 4300 // end\n"

def commentedImage : Image :=
  ⟨["0007", "-12", "+00000003", "2000", "3101", "4300"], 3, .ofList [(0, "count"), (2, "Total_2")]⟩

theorem source_keeps_numbers_commented :
    (Image.parse commented none).result = .ok commentedImage ∧
      ∃ source, ((⟨.empty⟩ : Disassembler).source commentedImage).2.2 = .ok source ∧
        ∀ (b : Assembler) (name : String), ∃ q, (b.assemble name source).2.outcome = .ok q ∧
          q.toImage.origin = 3 ∧
          q.toImage.numbers =
            .ok [some 7, some (-12), some 3, some 2000, some 3101, some 4300] := by
  have hparse : (Image.parse commented none).result = .ok commentedImage := by decide +kernel
  have hdata : ∀ w ∈ commentedImage.data, ∃ n, Word.parse w = .ok (some n) := by
    show ∀ w ∈ ["0007", "-12", "+00000003"], _
    rw [List.forall_mem_cons, List.forall_mem_cons, List.forall_mem_singleton]
    exact ⟨⟨7, by decide +kernel⟩, ⟨-12, by decide +kernel⟩, ⟨3, by decide +kernel⟩⟩
  obtain ⟨source, hsource, hassembles, hnames⟩ :=
    source_keeps_numbers commented none commentedImage hparse hdata (by decide +kernel) ⟨.empty⟩
  have hapart : commentedImage.DeclaresApart := (hnames (by decide +kernel)).2 (by decide +kernel)
  have hnums : commentedImage.numbers =
      .ok [some 7, some (-12), some 3, some 2000, some 3101, some 4300] := by decide +kernel
  exact ⟨hparse, source, hsource, fun b name => hnums ▸ (hassembles b name).2 hapart⟩

/-- Two data words with one comment. -/
def repeated : String := "0001  // n\n0002  // n\n// Instructions\n2001\n4300\n"

def repeatedImage : Image :=
  ⟨["0001", "0002", "2001", "4300"], 2, .ofList [(0, "n"), (1, "n")]⟩

/-- Both words declare one variable, and the program is shorter than the image. -/
theorem source_keeps_numbers_repeated :
    (Image.parse repeated none).result = .ok repeatedImage ∧
      (∀ w ∈ repeatedImage.data, (Word.parse w).toOption.join.isSome = true) ∧
      (∀ w ∈ repeatedImage.code, Image.expressible w = true) ∧
      ((⟨.empty⟩ : Disassembler).source repeatedImage).2.2 = .ok "n = 1\nn = 2\nLOAD 1\nHALT\n" ∧
      ((Assembler.new false).assemble "<input>"
        "n = 1\nn = 2\nLOAD 1\nHALT\n").2.outcome.toOption.map (fun q => q.toImage) =
        some ⟨["0001", "2001", "4300"], 1, .ofList [(0, "n")]⟩ := by
  decide +kernel

end Disassembler

end DecimalMachine
