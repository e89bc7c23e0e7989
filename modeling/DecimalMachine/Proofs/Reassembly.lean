import DecimalMachine.Proofs.ImageText
import DecimalMachine.Proofs.SourceText
import DecimalMachine.Proofs.Verdict
/-
  Assembling again: the source text that a disassembler writes for the image of a program. It declares
  the variables of the program in their order and has the words as instructions with numbers for
  operands, so that labels and names are not needed (`Restates`). Whatever the program was made from,
  such lines are assembled without an error (`compiled_of_restates`), and give the same data and the
  same words; only a word that no instruction has is left out.
-/
namespace DecimalMachine

namespace Word

/-- Some instruction has the word. -/
def expressible (w : Int) : Bool :=
  match Opcode.ofCode? (split w).1 with
  | some op => op.takesOperand || (split w).2 == 0
  | none => false

/-- What the source line of a word says. -/
def statement (w : Int) : Statement :=
  match Opcode.ofCode? (split w).1 with
  | some op =>
    if op.takesOperand then .instruction op.mnemonic (some (toString (split w).2)) []
    else if (split w).2 = 0 then .instruction op.mnemonic none []
    else .comment
  | none => .comment

/-- An expressible word is that of an operation and its operand. -/
theorem statement_of_expressible {w : Int} (h : expressible w = true) :
    ∃ op, Opcode.ofCode? (split w).1 = some op ∧
      (op.takesOperand = true ∧
          statement w = .instruction op.mnemonic (some (toString (split w).2)) [] ∨
        op.takesOperand = false ∧ (split w).2 = 0 ∧
          statement w = .instruction op.mnemonic none []) := by
  unfold expressible at h
  unfold statement
  cases ho : Opcode.ofCode? (split w).1 with
  | none => rw [ho] at h; cases h
  | some op =>
    rw [ho] at h
    refine ⟨op, rfl, ?_⟩
    by_cases ht : op.takesOperand = true
    · exact .inl ⟨ht, if_pos ht⟩
    · have hzero : (split w).2 = 0 := by simpa [ht] using h
      exact .inr ⟨Bool.eq_false_iff.2 ht, hzero, (if_neg ht).trans (if_pos hzero)⟩

theorem statement_of_not_expressible {w : Int} (h : expressible w = false) :
    statement w = .comment := by
  unfold expressible at h
  unfold statement
  cases ho : Opcode.ofCode? (split w).1 with
  | none => rfl
  | some op =>
    rw [ho] at h
    obtain ⟨ht, hzero⟩ := Bool.or_eq_false_iff.1 h
    have hzero : (split w).2 ≠ 0 := by simpa using hzero
    simp [ht, hzero]

/-- The operand of an instruction word has two digits. -/
theorem split_operand {w : Int} (h0 : 0 ≤ w) : 0 ≤ (split w).2 ∧ (split w).2 ≤ 99 := by
  unfold split
  rw [Int.tmod_eq_emod_of_nonneg h0]
  dsimp only
  omega

end Word

/-! ## Source lines -/

namespace Disassembler

/-- The source line of a word is read as what the word says. -/
theorem spells_sourceLine (names : AddressNames) (w address : Int) :
    Source.Spells (sourceLine (Decoded.ofValue names (Word.render w) (some w) address)).1
      (Word.statement w) := by
  unfold sourceLine instruction? Decoded.opcode? Decoded.ofValue Word.statement
  cases ho : Opcode.ofCode? (Word.split w).1 with
  | none =>
    simp only [ho, Option.isSome_some, if_true]
    exact Source.spells_unexpressed address w
  | some op =>
    simp only [ho, Option.isSome_some, if_true]
    by_cases ht : op.takesOperand = true
    · rw [if_pos ht, if_pos ht]
      exact Source.spells_instruction op _
    · rw [if_neg ht, if_neg ht]
      by_cases hzero : (Word.split w).2 = 0
      · rw [if_pos hzero, if_pos hzero]
        exact Source.spells_operation op
      · rw [if_neg hzero, if_neg hzero]
        exact Source.spells_unexpressed address w

/-- A declaration for every variable, with its name and its first value. -/
def declarationLines (p : Program) : List String :=
  p.symbols.map fun s => s!"{s.name} = {s.initial}"

/-- Data words with names become declarations of their names. -/
theorem declarations_eq {i : Image} {symbols : List Symbol} {start : Nat}
    (h : ∀ e ∈ symbols.zipIdx start, i.names.get? e.2 = some e.1.name ∧ e.1.name.isEmpty = false ∧
      Word.inRange e.1.initial = true) :
    (declarations i start (symbols.map fun s => Word.render s.initial)).failure = none ∧
      (declarations i start (symbols.map fun s => Word.render s.initial)).lines =
        symbols.map fun s => s!"{s.name} = {s.initial}" := by
  induction symbols generalizing start with
  | nil => exact ⟨rfl, rfl⟩
  | cons s symbols ih =>
    rw [List.zipIdx_cons, List.forall_mem_cons] at h
    obtain ⟨⟨hname, hne, hr⟩, hrest⟩ := h
    obtain ⟨hfail, hlines⟩ := ih hrest
    have hdata : dataName i start = s.name := by
      unfold dataName
      rw [show i.names.get? (start : Int) = some s.name from hname]
      dsimp only at hne ⊢
      rw [hne, if_neg Bool.false_ne_true]
    rw [List.map_cons, declarations, Word.parse_render_of_inRange hr]
    dsimp only
    rw [hdata, hlines]
    exact ⟨hfail, rfl⟩

/-- Words whose lines can be written are all written. -/
theorem sourceLines_of_hasSourceLine {ds : List Decoded} (h : ∀ d ∈ ds, HasSourceLine d) :
    (sourceLines ds).failure = none ∧ (sourceLines ds).lines = ds.map fun d => (sourceLine d).1 := by
  induction ds with
  | nil => exact ⟨rfl, rfl⟩
  | cons d ds ih =>
    obtain ⟨hd, hrest⟩ := List.forall_mem_cons.1 h
    obtain ⟨hfail, hlines⟩ := ih hrest
    unfold sourceLines
    rw [if_pos hd]
    exact ⟨hfail, congrArg _ hlines⟩

section

-- The equation is about one text and the rest. Without this it is checked by taking the text apart,
-- numeral and all.
attribute [local irreducible] Decoded.ofText

theorem ofTexts_cons (names : AddressNames) (start : Int) (s : String) (r : List String) :
    Decoded.ofTexts names start (s :: r) =
      match Decoded.ofText names s start with
      | .error e => .error e
      | .ok d => (Decoded.ofTexts names (start + 1) r).map (d :: ·) := rfl

theorem address_of_ofText {names : AddressNames} {s : String} {a : Int} {d : Decoded}
    (h : Decoded.ofText names s a = .ok d) : d.address = a := by
  unfold Decoded.ofText at h
  dsimp only at h
  cases hp : Word.parse (String.ofList (Text.trim s.toList)) with
  | error e => rw [hp] at h; cases h
  | ok value =>
    rw [hp] at h
    obtain rfl := Except.ok.inj h
    unfold Decoded.ofValue
    cases value with
    | none => rfl
    | some w => dsimp only; split <;> rfl

end

/-- Texts are taken apart at the addresses from the first one on. -/
theorem le_address_of_ofTexts {names : AddressNames} {texts : List String} {start : Int}
    {ds : List Decoded} (h : Decoded.ofTexts names start texts = .ok ds) :
    ∀ d ∈ ds, start ≤ d.address := by
  induction texts generalizing start ds with
  | nil =>
    obtain rfl := Except.ok.inj h
    exact List.forall_mem_nil _
  | cons s texts ih =>
    rw [ofTexts_cons] at h
    cases hs : Decoded.ofText names s start with
    | error e => rw [hs] at h; cases h
    | ok d =>
      rw [hs] at h
      dsimp only at h
      cases hr : Decoded.ofTexts names (start + 1) texts with
      | error e => rw [hr] at h; cases h
      | ok rest =>
        rw [hr] at h
        obtain rfl := Except.ok.inj h
        refine List.forall_mem_cons.2 ⟨Int.le_of_eq (address_of_ofText hs).symm, fun d' hd' => ?_⟩
        have hle := ih hr d' hd'
        omega

/-- The source of an image that does not begin in front of its words is written if its words can be
    read. -/
theorem source_eq_ok {d : Disassembler} {i : Image} {ds : List Decoded} (h0 : 0 ≤ i.origin)
    (hd : (declarations i 0 i.data).failure = none) (hc : (d.decodeImage i).2 = .ok ds) :
    (d.source i).2.2 = .ok ("\n".intercalate
      ((declarations i 0 i.data).lines ++ ds.map fun d => (sourceLine d).1) ++ "\n") := by
  have hlines : ∀ d ∈ ds, HasSourceLine d := fun d hd =>
    .inr (.inl (Int.le_trans h0 (le_address_of_ofTexts hc d hd)))
  obtain ⟨hfail, hwritten⟩ := sourceLines_of_hasSourceLine hlines
  unfold source
  dsimp only
  rw [hd]
  dsimp only
  rw [hc]
  dsimp only
  rw [hfail, hwritten]

/-- Words are taken apart one by one. -/
theorem ofTexts_render (names : AddressNames) {ws : List Int}
    (h : ∀ w ∈ ws, Word.inRange w = true) (start : Int) :
    ∃ ds, Decoded.ofTexts names start (ws.map Word.render) = .ok ds ∧
      List.Forall₂ Source.Spells (ds.map fun d => (sourceLine d).1) (ws.map Word.statement) := by
  induction ws generalizing start with
  | nil => exact ⟨[], rfl, .nil⟩
  | cons w ws ih =>
    obtain ⟨hw, hrest⟩ := List.forall_mem_cons.1 h
    obtain ⟨ds, hds, hspells⟩ := ih hrest (start + 1)
    have htrim : String.ofList (Text.trim (Word.render w).toList) = Word.render w := by
      rw [Word.toList_render, Text.trim_of_not_blank fun _ => Text.not_blank_of_mem_padded,
        ← Word.toList_render, String.ofList_toList]
    have hfirst : Decoded.ofText names (Word.render w) start =
        .ok (Decoded.ofValue names (Word.render w) (some w) start) := by
      unfold Decoded.ofText
      dsimp only
      rw [htrim, Word.parse_render_of_inRange hw]
      rfl
    refine ⟨_ :: ds, ?_, .cons (spells_sourceLine names w start) hspells⟩
    rw [List.map_cons, ofTexts_cons, hfirst, hds]
    rfl

end Disassembler

namespace Assembly

open Source

/-! ## Lines that restate a program -/

/-- Lines that declare variables with their values, and say what words do. -/
structure Restates (pairs : List (String × Int)) (ws : List Int) (lines : List Line) : Prop where
  declares : lines.filterMap Line.declared? = pairs
  operates : (code lines).map Line.statement = ws.map Word.statement

theorem isCode_of_statement {l : Line} {w : Int} (h : l.statement = Word.statement w) :
    l.isCode = Word.expressible w ∧ l.declared? = none := by
  unfold Line.isCode Line.declared?
  rw [h]
  cases he : Word.expressible w with
  | false =>
    rw [Word.statement_of_not_expressible he]
    exact ⟨rfl, rfl⟩
  | true =>
    obtain ⟨op, -, ⟨-, hs⟩ | ⟨-, -, hs⟩⟩ := Word.statement_of_expressible he
    · rw [hs]
      exact ⟨rfl, rfl⟩
    · rw [hs]
      exact ⟨rfl, rfl⟩

/-- Of the lines for words only those of expressible words are instructions. -/
theorem restates_words {ws : List Int} {lines : List Line}
    (h : lines.map Line.statement = ws.map Word.statement) :
    Restates [] (ws.filter Word.expressible) lines := by
  induction lines generalizing ws with
  | nil =>
    obtain rfl : ws = [] := List.map_eq_nil_iff.1 h.symm
    exact ⟨rfl, rfl⟩
  | cons l lines ih =>
    obtain ⟨w, ws, rfl, hl, hlines⟩ := List.map_eq_cons_iff.1 h.symm
    obtain ⟨hcode, hdeclared⟩ := isCode_of_statement hl.symm
    obtain ⟨hd, ho⟩ := ih hlines.symm
    refine ⟨by rw [List.filterMap_cons, hdeclared, hd], ?_⟩
    unfold code at ho ⊢
    rw [List.filter_cons, List.filter_cons, hcode]
    cases Word.expressible w with
    | false => exact ho
    | true => exact congr (congrArg List.cons hl.symm) ho

theorem restates_lines {pairs : List (String × Int)} {ws : List Int} {lines : List Line}
    (h : lines.map Line.statement =
      pairs.map (fun d => .variable d.1 d.2) ++ ws.map Word.statement) :
    Restates pairs (ws.filter Word.expressible) lines := by
  induction pairs generalizing lines with
  | nil => exact restates_words h
  | cons d pairs ih =>
    cases lines with
    | nil => cases h
    | cons l lines =>
      obtain ⟨hl, hrest⟩ := List.cons.inj h
      have hdeclared : l.declared? = some d := by
        unfold Line.declared?
        rw [hl]
      obtain ⟨hd, ho⟩ := ih hrest
      refine ⟨by rw [List.filterMap_cons, hdeclared, hd], ?_⟩
      unfold code at ho ⊢
      rw [List.filter_cons, Line.isCode_of_declared? hdeclared, if_neg Bool.false_ne_true]
      exact ho

/-! ## Assembling such lines -/

theorem meaning_toString (lines : List Line) {n : Int} (h0 : 0 ≤ n) (h1 : n ≤ 99) :
    meaning lines (toString n) = .ok (n.toNat, .literal) := by
  have hr : Word.inRange n = true := Word.inRange_iff.2 ⟨by omega, by omega⟩
  have htoList : (toString n).toList = Text.zeroPad 0 n.toNat := by
    rw [Text.toList_toString]
    unfold Text.padded
    rw [if_neg (Int.not_lt.2 h0), show n.natAbs = n.toNat by omega]
  have hlen : (Text.zeroPad 0 n.toNat).length ≤ maxDigits := by
    rw [show n.toNat = n.natAbs by omega]
    exact Nat.le_trans (Word.length_zeroPad_of_inRange hr (Nat.zero_le _)) (by decide)
  unfold meaning
  rw [htoList, if_pos (Text.isDigits_zeroPad _ _), Text.natOfDigits_zeroPad hlen]
  rfl

/-- The word of an operation with the operand of a word is that word. -/
theorem join_of_ofCode? {w : Int} {op : Opcode} (h : Opcode.ofCode? (Word.split w).1 = some op) :
    Word.join op.code (Word.split w).2 = w := by
  rw [Opcode.code_of_ofCode? h]
  exact Word.join_split w

/-- Nothing is wrong with a line that says what a word does, and its operand is that of the word. -/
theorem complaint?_of_word {l : Line} {w : Int} (hs : l.statement = Word.statement w)
    (he : Word.expressible w = true) (h0 : 0 ≤ w) (hr : Word.inRange w = true) (strict : Bool)
    (lines : List Line) : complaint? strict lines l = none ∧
      ∀ mnemonic x extra, l.statement = .instruction mnemonic (some x) extra →
        ∃ n res, meaning lines x = .ok (n, res) ∧ n < 10 ^ 4 := by
  obtain ⟨hop0, hop1⟩ := Word.split_operand h0
  have hmeaning := meaning_toString lines hop0 hop1
  unfold complaint?
  rw [hs]
  obtain ⟨op, ho, ⟨ht, hst⟩ | ⟨ht, -, hst⟩⟩ := Word.statement_of_expressible he
  · have hword : ¬ Word.greatest < Word.join op.code ((Word.split w).2.toNat : Nat) := by
      rw [Int.toNat_of_nonneg hop0, join_of_ofCode? ho]
      exact Int.not_lt.2 (Word.inRange_iff.1 hr).2
    rw [hst]
    constructor
    · dsimp only
      rw [op.ofMnemonic?_mnemonic]
      dsimp only
      unfold operandComplaint?
      rw [ht, hmeaning, Bool.not_true, if_neg Bool.false_ne_true]
      dsimp only
      rw [if_neg (by simp), if_neg hword]
    · intro mnemonic x extra heq
      cases heq
      exact ⟨_, _, hmeaning, by omega⟩
  · rw [hst]
    constructor
    · dsimp only
      rw [op.ofMnemonic?_mnemonic]
      dsimp only
      rw [ht]
      rfl
    · intro mnemonic x extra heq
      cases heq

/-- The instruction of such a line has the word. -/
theorem word_of_assembles {lines : List Line} {l : Line} {address : Nat} {i : Instruction} {w : Int}
    (h : Assembles lines l address i) (hs : l.statement = Word.statement w)
    (he : Word.expressible w = true) (h0 : 0 ≤ w) : i.word = w := by
  obtain ⟨hop0, hop1⟩ := Word.split_operand h0
  obtain ⟨-, -, hword, mnemonic, operand, extra, hs', hm, hvalue⟩ := h.produces
  obtain ⟨op, ho, hform⟩ := Word.statement_of_expressible he
  have hoperation : i.opcode = op ∧ (i.operand : Int) = (Word.split w).2 := by
    rw [hs] at hs'
    rcases hform with ⟨ht, hst⟩ | ⟨ht, hzero, hst⟩
    · rw [hst] at hs'
      cases hs'
      obtain rfl := Option.some.inj (op.ofMnemonic?_mnemonic.symm.trans hm)
      have hne : i.opcode ≠ .halt := by simpa [Opcode.takesOperand] using ht
      rw [if_neg hne] at hvalue
      obtain ⟨x, res, hx, hn⟩ := hvalue
      rw [← Option.some.inj hx, meaning_toString lines hop0 hop1] at hn
      have hvalue : (Word.split w).2.toNat = i.operand := congrArg Prod.fst (Except.ok.inj hn)
      exact ⟨rfl, hvalue ▸ Int.toNat_of_nonneg hop0⟩
    · rw [hst] at hs'
      cases hs'
      obtain rfl := Option.some.inj (op.ofMnemonic?_mnemonic.symm.trans hm)
      have hhalt : i.opcode = .halt := by simpa [Opcode.takesOperand] using ht
      rw [if_pos hhalt] at hvalue
      rw [hzero, hvalue]
      exact ⟨rfl, rfl⟩
  rw [hword, hoperation.1, hoperation.2, Int.mul_comm]
  exact join_of_ofCode? ho

section

variable {pairs : List (String × Int)} {ws : List Int} {lines : List Line}

theorem Restates.declared_eq (h : Restates pairs ws lines)
    (hn : (pairs.map Prod.fst).Nodup) : declared lines = pairs.map Prod.fst := by
  unfold declared
  rw [← List.map_filterMap, h.declares, eraseDups_of_nodup hn]

theorem Restates.inRange (h : Restates pairs ws lines)
    (hp : ∀ d ∈ pairs, Word.inRange d.2 = true) {l : Line} (hl : l ∈ lines) {d : String × Int}
    (hd : l.declared? = some d) : Word.inRange d.2 = true :=
  hp d (h.declares ▸ List.mem_filterMap.2 ⟨l, hl, hd⟩)

theorem Restates.exists_word (h : Restates pairs ws lines) {l : Line} (hl : l ∈ lines)
    (hc : l.isCode = true) : ∃ w ∈ ws, l.statement = Word.statement w := by
  have hmem : l.statement ∈ (code lines).map Line.statement :=
    List.mem_map_of_mem (List.mem_filter.2 ⟨hl, hc⟩)
  rw [h.operates] at hmem
  obtain ⟨w, hw, hs⟩ := List.mem_map.1 hmem
  exact ⟨w, hw, hs.symm⟩

theorem Restates.failures_eq_nil (h : Restates pairs ws lines)
    (hp : ∀ d ∈ pairs, Word.inRange d.2 = true)
    (hw : ∀ w ∈ ws, Word.expressible w = true ∧ 0 ≤ w ∧ Word.inRange w = true) (strict : Bool) :
    (findings strict lines).filterMap Finding.failure? = [] := by
  -- All operands are literals, so it does not matter what the lines declare and define.
  have hword : ∀ l ∈ lines, l.isCode = true → complaint? strict (fitting lines) l = none ∧
      ∀ mnemonic x extra, l.statement = .instruction mnemonic (some x) extra →
        ∃ n res, meaning (fitting lines) x = .ok (n, res) ∧ n < 10 ^ 4 := fun l hl hc => by
    obtain ⟨w, hmem, hs⟩ := h.exists_word hl hc
    obtain ⟨he, h0, hr⟩ := hw w hmem
    exact complaint?_of_word hs he h0 hr strict _
  have hdeclarations : declarationErrors lines = [] := by
    refine List.filterMap_eq_nil_iff.2 fun ⟨l, i⟩ hl => ?_
    show (misdeclared? (lines.take i) l).map l.diagnose = none
    unfold misdeclared?
    cases hd : l.declared? with
    | none => rfl
    | some d =>
      dsimp only
      rw [h.inRange hp (List.fst_mem_of_mem_zipIdx hl) hd]
      rfl
  have hinstructions : instructionErrors strict lines = [] := by
    refine List.filterMap_eq_nil_iff.2 fun l hl => ?_
    cases hc : l.isCode with
    | true => rw [(hword l hl hc).1, Option.map_none]
    | false => rw [complaint?_of_not_code hc, Option.map_none]
  rw [failures_findings (Nat.le_refl 4) (by decide) fun l hl mnemonic x extra hs =>
      (hword l hl (by unfold Line.isCode; rw [hs])).2 _ _ _ hs,
    hdeclarations, hinstructions]
  rfl

theorem Restates.symbols_eq (h : Restates pairs ws lines) (hn : (pairs.map Prod.fst).Nodup)
    {symbols : List Symbol} (hs : Lists lines symbols) :
    symbols.map (fun s => (s.name, s.initial)) = pairs := by
  have hnames : symbols.map Symbol.name = pairs.map Prod.fst := hs.names.trans (h.declared_eq hn)
  have hlen : symbols.length = pairs.length := by simpa using congrArg List.length hnames
  refine List.ext_getElem (by rw [List.length_map, hlen]) fun i h₁ h₂ => ?_
  have hi : i < symbols.length := hlen ▸ h₂
  have hname : symbols[i].name = pairs[i].1 := by
    have hget := List.getElem_of_eq hnames (by rwa [List.length_map])
    rwa [List.getElem_map, List.getElem_map] at hget
  have hinitial := (hs.initials symbols[i] (List.getElem_mem hi)).1
  rw [initial?_eq_find?, h.declares, hname,
    find?_of_nodup hn (List.getElem_mem h₂)] at hinitial
  rw [List.getElem_map]
  exact Prod.ext hname (Option.some.inj hinitial).symm

theorem Restates.words_eq (h : Restates pairs ws lines)
    (hw : ∀ w ∈ ws, Word.expressible w = true ∧ 0 ≤ w ∧ Word.inRange w = true) {q : Program}
    (hq : Compiled lines q) : q.instructions.map Instruction.word = ws := by
  have hlen : (code lines).length = ws.length := by
    simpa using congrArg List.length h.operates
  refine List.ext_getElem (by rw [List.length_map, hq.length, hlen]) fun i h₁ h₂ => ?_
  have hi : i < q.instructions.length := by rwa [List.length_map] at h₁
  have hcode : i < (code lines).length := hlen ▸ h₂
  have hs : (code lines)[i].statement = Word.statement ws[i] := by
    have hget := List.getElem_of_eq h.operates (by rwa [List.length_map])
    rwa [List.getElem_map, List.getElem_map] at hget
  obtain ⟨he, h0, -⟩ := hw ws[i] (List.getElem_mem h₂)
  rw [List.getElem_map]
  exact word_of_assembles (hq.assembles i hi hcode) hs he h0

/-- Lines that restate a program are assembled to its data and its words. -/
theorem compiled_of_restates (h : Restates pairs ws lines) (hn : (pairs.map Prod.fst).Nodup)
    (hp : ∀ d ∈ pairs, Word.inRange d.2 = true)
    (hw : ∀ w ∈ ws, Word.expressible w = true ∧ 0 ≤ w ∧ Word.inRange w = true)
    (strict : Bool) (file : String) :
    ∃ q, (ofLines strict file lines).outcome = .ok q ∧ Compiled lines q ∧
      q.symbols.map (fun s => (s.name, s.initial)) = pairs ∧
      q.instructions.map Instruction.word = ws := by
  have hout := @outcome_of_no_error strict file lines
    (Review.error?_eq_none_iff.2 (h.failures_eq_nil hp hw strict))
  obtain ⟨hq, -⟩ := compiled_of_ofLines hout
  exact ⟨_, hout, hq, h.symbols_eq hn hq.tables.symbols, h.words_eq hw hq⟩

end

/-! ## The source text of an image -/

theorem Compiled.name_symbol {lines : List Line} {p : Program} (h : Compiled lines p)
    {s : Symbol} {i : Nat} (hs : (s, i) ∈ p.symbols.zipIdx) :
    p.toImage.names.get? i = some s.name := by
  rw [AddressNames.get?_eq_some_iff, h.pictured.names, ← h.tables.symbols.names, List.zipIdx_map,
    List.map_map]
  exact List.mem_map.2 ⟨(s, i), hs, rfl⟩

/-- The words of instructions are no negative numbers and fit. -/
theorem Compiled.word_bounds {lines : List Line} {p : Program} (h : Compiled lines p) :
    ∀ w ∈ p.instructions.map Instruction.word, 0 ≤ w ∧ Word.inRange w = true := by
  intro w hw
  obtain ⟨i, hi, rfl⟩ := List.mem_map.1 hw
  obtain ⟨k, hk, rfl⟩ := List.mem_iff_getElem.1 hi
  have ha := h.assembles k hk (h.length ▸ hk)
  have hp := ha.produces
  have hpos := p.instructions[k].opcode.code_pos
  exact ⟨by rw [hp.word]; omega, inRange_of_assembles ha⟩

/-- The source text of the image of a program declares its variables and has its words as
    instructions. -/
theorem source_toImage {file source : String} {lines : List Line} {p : Program}
    (hread : readLines file source = lines.map .ok) (h : Compiled lines p) (d : Disassembler) :
    ∃ texts : List String, (d.source p.toImage).2.2 = .ok ("\n".intercalate texts ++ "\n") ∧
      List.Forall₂ Spells texts
        ((p.symbols.map fun s => (s.name, s.initial)).map (fun d => .variable d.1 d.2) ++
          (p.instructions.map Instruction.word).map Word.statement) := by
  have hname : ∀ s ∈ p.symbols, isName s.name.toList = true := fun s hs =>
    isName_of_declared hread (h.tables.symbols.names ▸ List.mem_map_of_mem hs)
  have hinitial : ∀ s ∈ p.symbols, Word.inRange s.initial = true := fun s hs =>
    (h.tables.symbols.initials s hs).2
  obtain ⟨hfail, hdecls⟩ := @Disassembler.declarations_eq p.toImage p.symbols 0 fun ⟨s, i⟩ he => by
    have hs : s ∈ p.symbols := List.fst_mem_of_mem_zipIdx he
    refine ⟨h.name_symbol he, Bool.eq_false_iff.2 fun hempty => ?_, hinitial s hs⟩
    refine (of_isName (hname s hs)).1 ?_
    rw [String.isEmpty_iff.1 hempty]
    rfl
  obtain ⟨ds, hds, hspells⟩ := Disassembler.ofTexts_render (d.learn p.toImage).names
    (fun w hw => (h.word_bounds w hw).2) p.toImage.origin
  rw [List.map_map] at hds
  have hdeclared : List.Forall₂ Spells (Disassembler.declarationLines p)
      ((p.symbols.map fun s => (s.name, s.initial)).map fun d => .variable d.1 d.2) := by
    rw [List.map_map]
    exact List.forall₂_map_left_iff.2 (List.forall₂_map_right_iff.2 (List.forall₂_same.2
      fun s hs => spells_declaration (hname s hs) (hinitial s hs)))
  refine ⟨Disassembler.declarationLines p ++ ds.map fun d => (Disassembler.sourceLine d).1, ?_,
    List.rel_append hdeclared hspells⟩
  have hcode : (d.decodeImage p.toImage).2 = .ok ds := by
    unfold Disassembler.decodeImage
    rw [code_toImage]
    exact hds
  have hdata : p.toImage.data = p.symbols.map fun s => Word.render s.initial := h.pictured.data
  have horigin : 0 ≤ p.toImage.origin := Int.natCast_nonneg _
  rw [Disassembler.source_eq_ok horigin (hdata ▸ hfail) hcode, hdata, hdecls]
  rfl

theorem restates_blank {lines : List Line} (h : lines.map Line.statement = [.blank]) :
    Restates [] [] lines := by
  obtain ⟨l, rest, rfl, hl, hrest⟩ := List.map_eq_cons_iff.1 h
  obtain rfl := List.map_eq_nil_iff.1 hrest
  have hdeclared : l.declared? = none := by
    unfold Line.declared?
    rw [hl]
  have hcode : l.isCode = false := by
    unfold Line.isCode
    rw [hl]
  refine ⟨by rw [List.filterMap_cons, hdeclared]; rfl, ?_⟩
  unfold code
  rw [List.filter_cons, hcode]
  rfl

/-- The lines of that text restate the program. -/
theorem restates_of_spells {texts : List String} {pairs : List (String × Int)} {ws : List Int}
    (h : List.Forall₂ Spells texts
      (pairs.map (fun d => .variable d.1 d.2) ++ ws.map Word.statement)) (file : String) :
    ∃ lines : List Line, readLines file ("\n".intercalate texts ++ "\n") = lines.map .ok ∧
      Restates pairs (ws.filter Word.expressible) lines := by
  obtain ⟨lines, hread, hlines | ⟨hnil, hlines⟩⟩ := readLines_of_spells h file
  · exact ⟨lines, hread, restates_lines hlines⟩
  · obtain ⟨hpairs, hws⟩ := List.append_eq_nil_iff.1 hnil
    obtain rfl := List.map_eq_nil_iff.1 hpairs
    obtain rfl := List.map_eq_nil_iff.1 hws
    exact ⟨lines, hread, restates_blank hlines⟩

end Assembly

namespace Image

/-- Some instruction has the word that is written. -/
def expressible (word : String) : Bool :=
  match Word.parse word with
  | .ok (some w) => Word.expressible w
  | _ => false

theorem expressible_render {w : Int} (h : Word.inRange w = true) :
    expressible (Word.render w) = Word.expressible w := by
  unfold expressible
  rw [Word.parse_render_of_inRange h]

theorem filter_expressible_render {ws : List Int} (h : ∀ w ∈ ws, Word.inRange w = true) :
    (ws.map Word.render).filter expressible = (ws.filter Word.expressible).map Word.render := by
  have hfilter : ws.filter (expressible ∘ Word.render) = ws.filter Word.expressible :=
    List.filter_congr fun w hw => expressible_render (h w hw)
  rw [List.filter_map, hfilter]

/-- Images are the same if their data, their code, their origins and their names are. -/
theorem ext_parts {i j : Image} (hd : i.data = j.data) (hc : i.code = j.code)
    (ho : i.origin = j.origin) (hn : i.names = j.names) : i = j := by
  have hw : i.words = j.words := by
    rw [← i.data_append_code, ← j.data_append_code, hd, hc]
  obtain ⟨ws, o, t⟩ := i
  subst hw ho hn
  rfl

/-- One image is another without the code words that no instruction has. -/
structure Reduces (i j : Image) : Prop where
  origin : j.origin = i.origin
  data : j.data = i.data
  names : j.names = i.names
  code : j.code = i.code.filter expressible

theorem Reduces.eq_iff {i j : Image} (h : Reduces i j) :
    j = i ↔ ∀ w ∈ i.code, expressible w = true := by
  rw [← List.filter_eq_self, ← h.code]
  exact ⟨fun he => he ▸ rfl, fun hc => ext_parts h.data hc h.origin h.names⟩

end Image

namespace Assembly

open Source

/-- Where the variables and their first values are the same and so are the words, but for those that
    no instruction has, one image reduces to the other. -/
theorem Compiled.reduces {lines lines' : List Line} {p q : Program} (hp : Compiled lines p)
    (hq : Compiled lines' q) (hs : q.symbols.map (fun s => (s.name, s.initial)) =
      p.symbols.map fun s => (s.name, s.initial))
    (hw : q.instructions.map Instruction.word =
      (p.instructions.map Instruction.word).filter Word.expressible) :
    Image.Reduces p.toImage q.toImage := by
  have hnames : q.symbols.map Symbol.name = p.symbols.map Symbol.name := by
    simpa [Function.comp_def] using congrArg (List.map Prod.fst) hs
  have hinitials : q.symbols.map (fun s => Word.render s.initial) =
      p.symbols.map fun s => Word.render s.initial := by
    simpa [Function.comp_def] using congrArg (List.map fun d => Word.render d.2) hs
  have hdeclared : declared lines' = declared lines := by
    rw [← hp.tables.symbols.names, ← hq.tables.symbols.names, hnames]
  have hrender : ∀ r : Program, (r.instructions.map fun i => Word.render i.word) =
      (r.instructions.map Instruction.word).map Word.render := fun r => by
    rw [List.map_map]
    rfl
  constructor
  · rw [hp.pictured.origin, hq.pictured.origin, hdeclared]
  · rw [hp.pictured.data, hq.pictured.data, hinitials]
  · refine AddressNames.ext_entries ?_
    rw [hp.pictured.names, hq.pictured.names, hdeclared]
  · rw [hq.pictured.code, hp.pictured.code, hrender, hrender, hw,
      Image.filter_expressible_render fun w hw => (hp.word_bounds w hw).2]

end Assembly

namespace Disassembler

open Assembly

/-- The source text that is written for the image of a program can be assembled, and gives the image
    again but for the words that no instruction has. -/
theorem source_reassembles (a : Assembler) (file source : String) (p : Program)
    (h : (a.assemble file source).2.outcome = .ok p) (d : Disassembler) :
    ∃ text, (d.source p.toImage).2.2 = .ok text ∧
      ∀ (b : Assembler) (name : String), ∃ q, (b.assemble name text).2.outcome = .ok q ∧
        Image.Reduces p.toImage q.toImage ∧
        (q.toImage = p.toImage ↔ ∀ w ∈ p.toImage.code, Image.expressible w = true) := by
  obtain ⟨lines, hread, hp, -⟩ := compiled_of_assemble h
  obtain ⟨texts, htext, hspells⟩ := source_toImage hread hp d
  have hnodup : ((p.symbols.map fun s => (s.name, s.initial)).map Prod.fst).Nodup := by
    rw [List.map_map]
    show (p.symbols.map Symbol.name).Nodup
    rw [hp.tables.symbols.names]
    exact Source.nodup_declared lines
  have hinitials : ∀ d ∈ p.symbols.map fun s => (s.name, s.initial), Word.inRange d.2 = true := by
    intro d hd
    obtain ⟨s, hs, rfl⟩ := List.mem_map.1 hd
    exact (hp.tables.symbols.initials s hs).2
  have hkept : ∀ w ∈ (p.instructions.map Instruction.word).filter Word.expressible,
      Word.expressible w = true ∧ 0 ≤ w ∧ Word.inRange w = true := fun w hw =>
    ⟨(List.mem_filter.1 hw).2, hp.word_bounds w (List.mem_filter.1 hw).1⟩
  -- From here on the source of the image is out of play: what counts are the statements of the text.
  refine ⟨_, htext, fun b name => ?_⟩
  obtain ⟨lines', hread', hrestates⟩ := restates_of_spells hspells name
  obtain ⟨q, hout, hq, hsymbols, hwords⟩ :=
    compiled_of_restates hrestates hnodup hinitials hkept b.strict name
  have hreduces := hp.reduces hq hsymbols hwords
  refine ⟨q, ?_, hreduces, hreduces.eq_iff⟩
  rw [outcome_of_readSource (readSource_eq_ok_iff.2 hread'), hout]

/-- A variable that is named as an operation, a jump whose operand makes it a stop with an operand,
    and a reading whose operand makes it a word of no operation. -/
def carried : String := "LOAD = -7\nnext:\nLOAD LOAD\nJUMPZ 105\nREAD 345\nJUMP next\nHALT"

def carriedProgram : Program :=
  ((Assembler.new false).assemble "carried" carried).2.outcome.toOption.getD ⟨[], [], [], [], ""⟩

theorem source_reassembles_carried :
    (∃ text, (source ⟨.ofList [(0, "y")]⟩ carriedProgram.toImage).2.2 = .ok text ∧
      ∀ (b : Assembler) (name : String), ∃ q, (b.assemble name text).2.outcome = .ok q ∧
        Image.Reduces carriedProgram.toImage q.toImage ∧
        (q.toImage = carriedProgram.toImage ↔
          ∀ w ∈ carriedProgram.toImage.code, Image.expressible w = true)) ∧
    carriedProgram.toImage.code = ["2000", "4305", "1345", "4001", "4300"] ∧
    carriedProgram.toImage.code.filter Image.expressible = ["2000", "4001", "4300"] := by
  have hok : ((Assembler.new false).assemble "carried" carried).2.outcome.toBool = true := by
    decide +kernel
  have hmade : ((Assembler.new false).assemble "carried" carried).2.outcome =
      .ok carriedProgram := eq_ok_of_toBool hok _
  exact ⟨source_reassembles (Assembler.new false) "carried" carried carriedProgram hmade _,
    by decide +kernel, by decide +kernel⟩

end Disassembler

end DecimalMachine
