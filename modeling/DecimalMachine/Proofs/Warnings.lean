import DecimalMachine.Proofs.Placement
import DecimalMachine.Proofs.ProgramLayout
import DecimalMachine.Proofs.SourceLines
/-
  Warnings: what the assembly of a source warns of, said line by line. The first pass warns of labels
  that are defined again, and the second of tokens behind the operand, of names of nothing and of
  operands that carry into the operation (`assemble_warnings`). The addresses in a warning of the first
  pass are those of the lines in front of it, because the labels bound so far are always those of
  these lines (`Bound`). The texts of the four warnings differ even where a file name holds what looks
  like one of them, since all warnings of a source begin with the name of one file
  (`located_injective`).
-/
namespace DecimalMachine

/-! ## Texts -/

namespace Diagnostic

theorem toList_located (l : Location) (text : String) :
    (located (some l) text).toList = l.file.toList ++ ':' :: (Text.padded 0 l.line ++
      ':' :: (Text.padded 0 l.column ++ ':' :: (" warning: ".toList ++ text.toList))) := by
  rw [← Text.toList_toString, ← Text.toList_toString]
  show (l.file ++ ":" ++ toString l.line ++ ":" ++ toString l.column ++ ": warning: " ++
    text).toList = _
  simp

/-- In one file, warnings of the same text say the same. -/
theorem located_injective {l l' : Location} (hfile : l.file = l'.file) {s s' : String}
    (h : located (some l) s = located (some l') s') : s = s' := by
  have hcolon : ∀ n : Int, ':' ∉ Text.padded 0 n := by
    intro n hn
    rcases Text.minus_or_digit_of_mem_padded hn with hc | hc <;> cases hc
  have hlist := congrArg String.toList h
  rw [toList_located, toList_located, hfile] at hlist
  have hline := (List.cons.inj (List.append_cancel_left hlist)).2
  obtain ⟨-, hcolumn⟩ := Text.cut_unique (hcolon _) (hcolon _) hline
  obtain ⟨-, htext⟩ := Text.cut_unique (hcolon _) (hcolon _) hcolumn
  exact String.toList_injective (List.append_cancel_left htext)

end Diagnostic

/-! ## What there is to warn of -/

namespace Line

/-- The words of a line in front of its comment. -/
def tokens (l : Line) : List String :=
  (Text.words (Source.stripComment l.raw.toList)).map String.ofList

/-- The text of a warning about this line. -/
def caution (l : Line) (text : String) : String := Diagnostic.located (some l.location) text

end Line

namespace Source

/-- The warning about a line, given the lines before it, if it defines a label that they define. The
    addresses count from the origin on. -/
def redefinition? (origin : Nat) (before : List Line) (l : Line) : Option String :=
  l.defined?.bind fun x =>
    (target? before x).map fun i =>
      let was := Program.address2 (origin + i)
      let now := Program.address2 (origin + (code before).length)
      l.caution s!"label '{x}' redefined (was {was}, now {now})"

/-- The warnings about labels that are defined again, in the order of their lines. -/
def redefinitions (lines : List Line) : List String :=
  lines.zipIdx.filterMap fun (l, i) => redefinition? (origin lines) (lines.take i) l

end Source

namespace Instruction

def extraTokens (i : Instruction) : String :=
  let ignored := " ".intercalate (i.line.tokens.drop 2)
  i.line.caution s!"extra tokens after operand ignored: {ignored}"

def undefinedOperand (i : Instruction) : String :=
  let symbol := i.line.tokens.getD 1 ""
  i.line.caution s!"undefined symbol '{symbol}', using operand 0"

def overflow (i : Instruction) : String :=
  i.line.caution s!"operand {i.operand} does not fit in two digits; word overflows"

/-- The warnings that an instruction draws. -/
def warnings (i : Instruction) : List String :=
  (if 2 < i.line.tokens.length then [i.extraTokens] else []) ++
    (if i.resolution = some .undefined then [i.undefinedOperand] else []) ++
    if 99 < i.operand then [i.overflow] else []

end Instruction

namespace Assembly

open Source

/-! ## First pass -/

theorem warnings_declareAll (symbols : List Symbol) (lines : List Line) :
    (declareAll symbols lines).2.filterMap Finding.warning? = [] := by
  induction lines generalizing symbols with
  | nil => rfl
  | cons l ls ih =>
    have hl : (declare symbols l).2.filterMap Finding.warning? = [] := by
      rw [declare_eq]
      split
      · split
        · rfl
        · split <;> rfl
      · rfl
    rw [declareAll_cons, List.filterMap_append, hl, ih, List.append_nil]

/-- The labels are bound as they are in front of some line: every label to the last definition so far,
    where the instructions are counted from the origin on. -/
structure Bound (origin : Nat) (before : List Line) (labels : List Label) (address : Nat) : Prop where
  targets : ∀ x, (labels.find? (·.name == x)).map Label.address =
    (target? before x).map (origin + ·)
  address : address = origin + (code before).length

theorem target?_concat (lines : List Line) (l : Line) (x : String) :
    target? (lines ++ [l]) x =
      if l.defined? = some x then some (code lines).length else target? lines x := by
  induction lines with
  | nil => rfl
  | cons m ms ih =>
    rw [List.cons_append, target?_cons, ih, target?_cons]
    by_cases hl : l.defined? = some x
    · rw [if_pos hl, if_pos hl]
      unfold code
      rw [List.filter_cons]
      cases m.isCode <;> rfl
    · rw [if_neg hl, if_neg hl]

theorem length_code_concat (lines : List Line) (l : Line) :
    (code (lines ++ [l])).length = (code lines).length + if l.isCode then 1 else 0 := by
  unfold code
  rw [List.filter_append, List.length_append]
  cases h : l.isCode <;> simp [h]

/-- A line adds its label to those before it, and it is warned of if the label is among them. -/
theorem Bound.bind {origin : Nat} {before : List Line} {labels : List Label} {address : Nat}
    (h : Bound origin before labels address) (l : Line) :
    Bound origin (before ++ [l]) (bind labels address l).1
        (if l.isCode then address + 1 else address) ∧
      (bind labels address l).2.filterMap Finding.warning? =
        (redefinition? origin before l).toList := by
  refine ⟨⟨fun x => ?_, ?_⟩, ?_⟩
  · rw [bind_eq, target?_concat]
    cases hd : l.defined? with
    | none => exact h.targets x
    | some y =>
      dsimp only
      rw [find?_putLabel]
      by_cases hy : y = x
      · rw [if_pos hy, if_pos (congrArg some hy), h.address]
        rfl
      · rw [if_neg hy, if_neg fun he => hy (Option.some.inj he)]
        exact h.targets x
  · rw [length_code_concat, h.address]
    cases l.isCode <;> simp [Nat.add_assoc]
  · unfold Assembly.bind redefinition? Line.defined?
    cases l.statement with
    | label x =>
      have hx := h.targets x
      dsimp only
      rw [Option.bind_some]
      cases hf : labels.find? (·.name == x) with
      | none =>
        rw [hf] at hx
        rw [Option.map_eq_none_iff.1 hx.symm]
        rfl
      | some old =>
        rw [hf] at hx
        obtain ⟨i, hi, hwas⟩ := Option.map_eq_some_iff.1 hx.symm
        dsimp only
        rw [hi, h.address, ← hwas]
        rfl
    | _ => rfl

theorem Bound.bindAll {origin : Nat} {before ls : List Line} {labels : List Label} {address : Nat}
    (h : Bound origin before labels address) :
    (bindAll labels address ls).2.filterMap Finding.warning? =
      (ls.zipIdx before.length).filterMap fun (l, i) =>
        redefinition? origin ((before ++ ls).take i) l := by
  induction ls generalizing before labels address with
  | nil => rfl
  | cons l ls ih =>
    obtain ⟨hl, hw⟩ := h.bind l
    have hls := ih hl
    rw [List.append_assoc, List.singleton_append, List.length_append, List.length_singleton] at hls
    rw [bindAll_cons, List.filterMap_append, hw, hls, List.zipIdx_cons, List.filterMap_cons]
    dsimp only
    rw [List.take_left]
    cases redefinition? origin before l <;> rfl

theorem warnings_tabulate {lines : List Line} (h : (tabulate lines).1.Of lines) :
    (tabulate lines).2.filterMap Finding.warning? = redefinitions lines := by
  have horigin : (declareAll [] lines).1.length = origin lines := h.symbols.length
  have hstart : Bound (origin lines) [] [] (origin lines) := ⟨fun _ => rfl, rfl⟩
  rw [filterMap_tabulate fun _ => rfl, warnings_declareAll, horigin, hstart.bindAll]
  rfl

/-! ## Second pass -/

theorem statementOfWords_eq {ws : List (List Char)} {mnemonic : String} {operand : Option String}
    {extra : List String} (h : statementOfWords ws = .instruction mnemonic operand extra) :
    operand = (ws.map String.ofList)[1]? ∧ extra = (ws.map String.ofList).drop 2 := by
  cases ws with
  | nil =>
    obtain ⟨-, rfl, rfl⟩ := Statement.instruction.inj h
    exact ⟨rfl, rfl⟩
  | cons m r =>
    obtain ⟨-, rfl, rfl⟩ := Statement.instruction.inj h
    cases r <;> exact ⟨rfl, rfl⟩

theorem warnings_ignoring {l : Line} {extra : List String} (h : extra = l.tokens.drop 2) :
    (ignoring l extra).filterMap Finding.warning? =
      let ignored := " ".intercalate (l.tokens.drop 2)
      if 2 < l.tokens.length then [l.caution s!"extra tokens after operand ignored: {ignored}"]
      else [] := by
  subst h
  unfold ignoring
  by_cases hlong : 2 < l.tokens.length
  · have hne : (l.tokens.drop 2).isEmpty = false := by simpa using hlong
    rw [hne, if_neg Bool.false_ne_true, if_pos hlong]
    rfl
  · have hnil : (l.tokens.drop 2).isEmpty = true := by simpa using hlong
    rw [hnil, if_pos rfl, if_neg hlong]
    rfl

theorem warnings_cautions (l : Line) (x : String) (n : Nat) (res : Resolution) :
    (cautions l x n res).filterMap Finding.warning? =
      (if res = .undefined then [l.caution s!"undefined symbol '{x}', using operand 0"] else []) ++
        if 99 < n then [l.caution s!"operand {n} does not fit in two digits; word overflows"]
        else [] := by
  have hwide : Word.greatestOperand < (n : Int) ↔ 99 < n := by
    unfold Word.greatestOperand
    omega
  unfold cautions
  rw [List.filterMap_append]
  congr 1
  · split <;> rfl
  · rw [if_congr hwide rfl rfl]
    split <;> rfl

/-- What comes up at an instruction line that draws no error are the warnings of its instruction. -/
theorem Yields.warnings {lines : List Line} {l : Line} {address : Nat} {e : Encoding}
    (h : Yields lines l address e)
    (hs : l.statement = statementOfWords (Text.words (stripComment l.raw.toList))) :
    ∃ i, e.instruction = some i ∧ e.findings.filterMap Finding.warning? = i.warnings := by
  cases h with
  | bare hst hm ht =>
    obtain ⟨-, hextra⟩ := statementOfWords_eq (hs.symm.trans hst)
    refine ⟨_, rfl, (warnings_ignoring hextra).trans ?_⟩
    unfold Instruction.warnings
    simp only [reduceCtorEq, if_false, List.append_nil, show ¬ 99 < 0 by decide]
    rfl
  | @operand mnemonic x extra op n res hst hm ht hx hr =>
    obtain ⟨hoperand, hextra⟩ := statementOfWords_eq (hs.symm.trans hst)
    have hsymbol : l.tokens.getD 1 "" = x := by
      unfold Line.tokens
      rw [List.getD_eq_getElem?_getD, ← hoperand, Option.getD_some]
    refine ⟨_, rfl, ?_⟩
    dsimp only
    rw [List.filterMap_append, warnings_ignoring hextra, warnings_cautions, ← List.append_assoc]
    unfold Instruction.warnings Instruction.undefinedOperand
    simp only [Option.some.injEq, hsymbol]
    rfl

theorem warnings_encodings {lines : List Line} {t : Tables} (h : t.Of lines) {strict : Bool}
    (ls : List Line) {start : Nat} {encodings : List Encoding} (hc : ∀ l ∈ ls, l.isCode = true)
    (hs : ∀ l ∈ ls, l.statement = statementOfWords (Text.words (stripComment l.raw.toList)))
    (he : encodings = (ls.zipIdx start).map fun (l, address) => encode t strict l address)
    (hf : ∀ f ∈ encodings.flatMap Encoding.findings, f.isError = false) :
    (encodings.flatMap Encoding.findings).filterMap Finding.warning? =
      (encodings.filterMap Encoding.instruction).flatMap Instruction.warnings := by
  induction ls generalizing start encodings with
  | nil =>
    subst he
    rfl
  | cons l ls ih =>
    rw [List.zipIdx_cons, List.map_cons] at he
    subst he
    rw [List.flatMap_cons] at hf ⊢
    have hyields := yields_of_quiet h (hc l List.mem_cons_self)
      fun f hm => hf f (List.mem_append_left _ hm)
    obtain ⟨i, hi, hw⟩ := hyields.warnings (hs l List.mem_cons_self)
    have hrest := ih (fun k hk => hc k (List.mem_cons_of_mem l hk))
      (fun k hk => hs k (List.mem_cons_of_mem l hk)) rfl
      (fun f hm => hf f (List.mem_append_right _ hm))
    rw [List.filterMap_cons_some hi, List.flatMap_cons, List.filterMap_append, hw, hrest]

/-! ## Words and operands -/

/-- An instruction is read back from its word exactly if its operand has at most two digits. -/
theorem Assembles.split_iff {lines : List Line} {l : Line} {address : Nat} {i : Instruction}
    (h : Assembles lines l address i) :
    Word.split i.word = (i.opcode.code, (i.operand : Int)) ↔ i.operand ≤ 99 := by
  have hword : i.word = Word.join i.opcode.code i.operand := by cases h <;> rfl
  have hcode := i.opcode.code_pos
  rw [hword]
  constructor
  · intro hsplit
    have hmod : (Word.join i.opcode.code i.operand).tmod 100 = i.operand :=
      congrArg Prod.snd hsplit
    have hlt := Int.tmod_lt_of_pos (Word.join i.opcode.code i.operand) (b := 100) (by decide)
    omega
  · intro hn
    exact Word.split_join (by omega) (Int.natCast_nonneg _) (by omega)

/-! ## Overflows among the warnings -/

theorem toList_overflow (n : Nat) :
    s!"operand {n} does not fit in two digits; word overflows".toList =
      "operand ".toList ++ (Nat.toDigits 10 n ++
        ' ' :: "does not fit in two digits; word overflows".toList) := by
  show ("operand " ++ toString n ++ " does not fit in two digits; word overflows").toList = _
  simp

theorem overflow_injective {m n : Nat}
    (h : s!"operand {m} does not fit in two digits; word overflows" =
      s!"operand {n} does not fit in two digits; word overflows") : m = n := by
  have hblank : ∀ k : Nat, ' ' ∉ Nat.toDigits 10 k := by
    intro k hk
    cases Nat.isDigit_of_mem_toDigits (by decide) (by decide) hk
  have hlist := congrArg String.toList h
  rw [toList_overflow, toList_overflow] at hlist
  obtain ⟨hdigits, -⟩ := Text.cut_unique (hblank m) (hblank n) (List.append_cancel_left hlist)
  rw [← Nat.ofDigitChars_ten_toDigits (n := m), hdigits, Nat.ofDigitChars_ten_toDigits]

theorem head?_append {c : Char} {s : String} (h : s.toList.head? = some c) (t : String) :
    (s ++ t).toList.head? = some c := by
  rw [String.toList_append, List.head?_append, h]
  rfl

/-- A warning that begins with another letter is about no operand that is too great. -/
theorem overflow_ne_caution {l l' : Line} (hfile : l.location.file = l'.location.file) {n : Nat}
    {c : Char} (hc : c ≠ 'o') {text : String} (ht : text.toList.head? = some c) :
    l.caution s!"operand {n} does not fit in two digits; word overflows" ≠ l'.caution text := by
  intro h
  rw [← Diagnostic.located_injective hfile h, toList_overflow] at ht
  exact hc (Option.some.inj ht).symm

/-- Only an operand that is too great draws the warning about it. -/
theorem lt_of_overflow_mem {i j : Instruction} (hfile : i.line.location.file = j.line.location.file)
    (h : i.overflow ∈ j.warnings) : 99 < i.operand := by
  unfold Instruction.warnings at h
  simp only [List.mem_append, List.mem_ite_nil_right, List.mem_singleton] at h
  -- The texts of the warnings begin with different letters.
  rcases h with (⟨-, h⟩ | ⟨-, h⟩) | ⟨hn, h⟩
  · exact absurd h (overflow_ne_caution hfile (by decide : 'e' ≠ 'o') (head?_append rfl _))
  · exact absurd h (overflow_ne_caution hfile (by decide : 'u' ≠ 'o')
      (head?_append (head?_append rfl _) _))
  · rw [overflow_injective (Diagnostic.located_injective hfile h)]
    exact hn

theorem overflow_ne_redefinition {i : Instruction} {l : Line}
    (hfile : i.line.location.file = l.location.file) {origin : Nat} {before : List Line} :
    redefinition? origin before l ≠ some i.overflow := by
  intro h
  obtain ⟨x, -, hx⟩ := Option.bind_eq_some_iff.1 h
  obtain ⟨k, -, htext⟩ := Option.map_eq_some_iff.1 hx
  refine overflow_ne_caution hfile (by decide : 'l' ≠ 'o') ?_ htext.symm
  iterate 6 refine head?_append ?_ _
  rfl

theorem overflow_mem_iff {i : Instruction} {lines : List Line} {is : List Instruction} (hi : i ∈ is)
    (hlines : ∀ l ∈ lines, i.line.location.file = l.location.file)
    (his : ∀ j ∈ is, i.line.location.file = j.line.location.file) :
    i.overflow ∈ redefinitions lines ++ is.flatMap Instruction.warnings ↔ 99 < i.operand := by
  constructor
  · intro h
    rcases List.mem_append.1 h with h | h
    · obtain ⟨⟨l, k⟩, hl, hw⟩ := List.mem_filterMap.1 h
      exact absurd hw (overflow_ne_redefinition (hlines l (List.fst_mem_of_mem_zipIdx hl)))
    · obtain ⟨j, hj, hw⟩ := List.mem_flatMap.1 h
      exact lt_of_overflow_mem (his j hj) hw
  · intro hn
    refine List.mem_append_right _ (List.mem_flatMap.2 ⟨i, hi, List.mem_append_right _ ?_⟩)
    rw [if_pos hn]
    exact List.mem_cons_self

/-! ## All warnings -/

theorem Compiled.lines_eq {lines : List Line} {p : Program} (h : Compiled lines p) :
    p.instructions.map Instruction.line = code lines := by
  refine List.ext_getElem ((List.length_map _).trans h.length) fun k h₁ h₂ => ?_
  rw [List.getElem_map]
  exact (h.assembles k (List.length_map (f := Instruction.line) ▸ h₁) h₂).produces.line

/-- The warnings of both passes. -/
theorem warnings_ofLines {strict : Bool} {filename : String} {lines : List Line} {p : Program}
    (h : (ofLines strict filename lines).outcome = .ok p)
    (hs : ∀ l ∈ code lines,
      l.statement = statementOfWords (Text.words (stripComment l.raw.toList))) :
    p.warnings = redefinitions lines ++ p.instructions.flatMap Instruction.warnings := by
  obtain ⟨hf, rfl⟩ := of_ofLines h
  have ht := tabulate_of fun f hm => hf f (List.mem_append_left _ hm)
  have hcode : ∀ l ∈ code lines, l.isCode = true := fun l hl => (List.mem_filter.1 hl).2
  have hsecond := warnings_encodings ht (code lines) hcode hs rfl
    fun f hm => hf f (List.mem_append_right _ hm)
  show (findings strict lines).filterMap Finding.warning? = _
  unfold findings
  rw [List.filterMap_append, warnings_tabulate ht]
  exact congrArg (redefinitions lines ++ ·) hsecond

/-- A program comes with a warning for each label that is defined again, in the order of the lines, and
    then, instruction by instruction, with one for tokens behind the operand, one for an operand that
    is the name of nothing and one for an operand above 99, and with no others. An instruction can be
    read back from its word exactly if there is no warning about the size of its operand. -/
theorem assemble_warnings (a : Assembler) (filename source : String) (p : Program)
    (h : (a.assemble filename source).2.outcome = .ok p) :
    ∃ lines, readLines filename source = lines.map .ok ∧
      p.instructions.map Instruction.line = code lines ∧
      p.warnings = redefinitions lines ++ p.instructions.flatMap Instruction.warnings ∧
      ∀ i ∈ p.instructions,
        Word.split i.word = (i.opcode.code, (i.operand : Int)) ↔ i.overflow ∉ p.warnings := by
  obtain ⟨lines, hr⟩ := readSource_of_outcome h
  rw [outcome_of_readSource hr] at h
  have hread := readSource_eq_ok_iff.1 hr
  obtain ⟨hc, -⟩ := compiled_of_ofLines h
  have hw := warnings_ofLines h fun l hl => by
    obtain ⟨hl, hcode⟩ := List.mem_filter.1 hl
    obtain ⟨number, hline⟩ := readLine_of_mem hread hl
    exact (code_of_readLine hline hcode).2
  refine ⟨lines, hread, hc.lines_eq, hw, fun i hi => ?_⟩
  have hmem : ∀ j ∈ p.instructions, j.line ∈ lines := by
    intro j hj
    have hline : j.line ∈ code lines := hc.lines_eq ▸ List.mem_map_of_mem hj
    exact (List.mem_filter.1 hline).1
  have hfile := file_of_mem hread (hmem i hi)
  obtain ⟨k, hk, rfl⟩ := List.mem_iff_getElem.1 hi
  rw [hw, overflow_mem_iff hi (fun l hl => hfile.trans (file_of_mem hread hl).symm)
    (fun j hj => hfile.trans (file_of_mem hread (hmem j hj)).symm), Nat.not_lt]
  exact (hc.assembles k hk (hc.length ▸ hk)).split_iff

/-- A label that is defined again, a name of nothing with tokens behind it, an operand that carries
    into the operation, and tokens behind an operation that has no operand. -/
def careless : String :=
  "x = 5\nloop:\nLOAD z 1 2\nloop:\nADD 345\nHALT a b c // d\nJUMP loop"

def carelessProgram : Program :=
  ((Assembler.new false).assemble "careless" careless).2.outcome.toOption.getD ⟨[], [], [], [], ""⟩

theorem assemble_warnings_careless :
    (∃ lines, readLines "careless" careless = lines.map .ok ∧
      carelessProgram.instructions.map Instruction.line = code lines ∧
      carelessProgram.warnings =
        redefinitions lines ++ carelessProgram.instructions.flatMap Instruction.warnings ∧
      ∀ i ∈ carelessProgram.instructions,
        Word.split i.word = (i.opcode.code, (i.operand : Int)) ↔
          i.overflow ∉ carelessProgram.warnings) ∧
    carelessProgram.warnings =
      ["careless:4:1: warning: label 'loop' redefined (was 01, now 02)",
        "careless:3:1: warning: extra tokens after operand ignored: 1 2",
        "careless:3:1: warning: undefined symbol 'z', using operand 0",
        "careless:5:1: warning: operand 345 does not fit in two digits; word overflows",
        "careless:6:1: warning: extra tokens after operand ignored: b c"] := by
  have hok : ((Assembler.new false).assemble "careless" careless).2.outcome.toBool = true := by
    decide +kernel
  exact ⟨assemble_warnings _ _ _ _ (eq_ok_of_toBool hok _), by decide +kernel⟩

end Assembly

end DecimalMachine
