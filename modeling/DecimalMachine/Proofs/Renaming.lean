import Mathlib.Data.List.Forall2
import Mathlib.Logic.Equiv.Basic
import DecimalMachine.Proofs.Encodings
/-
  Renamings: what names mean to an assembly beyond telling one from another, which is nothing. A
  renaming keeps different names apart and leaves numerals alone (`Renaming`). Every table of the first
  pass has the renamed names in the same order with everything else as it was, an operand that is
  renamed with them stands for the same number (`Renaming.resolve`), and what comes up is the same at
  the same lines (`Finding.Renames`). So an assembly of renamed lines fails at the same lines or makes
  the renamed program (`Renaming.ofLines_renamed`).
-/
namespace DecimalMachine

/-- Other names for all names: what differs still differs, and numerals stay what they are. -/
structure Renaming where
  rename : String → String
  injective : Function.Injective rename
  numeral : ∀ x, Text.isDigits x.toList = true → rename x = x

namespace Renaming

instance : CoeFun Renaming fun _ => String → String := ⟨rename⟩

/-- Two names that are no numerals change places. -/
def swap (x y : String) (hx : Text.isDigits x.toList = false) (hy : Text.isDigits y.toList = false) :
    Renaming where
  rename := Equiv.swap x y
  injective := (Equiv.swap x y).injective
  numeral z hz := by
    refine Equiv.swap_apply_of_ne_of_ne ?_ ?_
    · rintro rfl
      rw [hx] at hz
      cases hz
    · rintro rfl
      rw [hy] at hz
      cases hz

variable (ρ : Renaming)

theorem eq_iff {x y : String} : ρ x = ρ y ↔ x = y := ρ.injective.eq_iff

theorem beq_eq (x y : String) : (ρ x == ρ y) = (x == y) := by
  rw [Bool.eq_iff_iff, beq_iff_eq, beq_iff_eq, ρ.eq_iff]

/-- Nothing but numerals becomes a numeral. -/
theorem isDigits_eq (x : String) : Text.isDigits (ρ x).toList = Text.isDigits x.toList := by
  cases hx : Text.isDigits x.toList with
  | true => rw [ρ.numeral x hx, hx]
  | false =>
    refine Bool.eq_false_iff.2 fun h => ?_
    rw [ρ.injective (ρ.numeral (ρ x) h), hx] at h
    cases h

/-! ## Renamed lines and programs -/

def statement : Statement → Statement
  | .label x => .label (ρ x)
  | .variable x value => .variable (ρ x) value
  | .instruction mnemonic operand extra => .instruction mnemonic (operand.map ρ) extra
  | s => s

/-- The line with other names for its variable, its label or its operand. -/
def line (l : Line) : Line := { l with statement := ρ.statement l.statement }

def symbol (s : Symbol) : Symbol := { s with name := ρ s.name }

def label (l : Label) : Label := { l with name := ρ l.name }

def instruction (i : Instruction) : Instruction := { i with line := ρ.line i.line }

/-- The same complaint, about the renamed name if it is about one. The names that are offered for an
    undefined one do not count. -/
inductive Retells : Complaint → Complaint → Prop
  | initialValue (x : String) (value : Int) :
      Retells (.initialValue x value) (.initialValue (ρ x) value)
  | missingOperand (mnemonic : String) :
      Retells (.missingOperand mnemonic) (.missingOperand mnemonic)
  | wideWord (mnemonic : String) (operand word : Int) :
      Retells (.wideWord mnemonic operand word) (.wideWord mnemonic operand word)
  | unknownInstruction (mnemonic : String) (similar : List String) :
      Retells (.unknownInstruction mnemonic similar) (.unknownInstruction mnemonic similar)
  | undefinedSymbol (x : String) (similar similar' : List String) :
      Retells (.undefinedSymbol x similar) (.undefinedSymbol (ρ x) similar')

/-- The same complaint about the same line. -/
def Repeats (lines : List Line) (d d' : Diagnostic) : Prop :=
  ∃ l ∈ lines, ∃ c c', ρ.Retells c c' ∧ d = l.diagnose c ∧ d' = (ρ.line l).diagnose c'

/-- The program with other names, and with as many warnings. -/
structure Remakes (p p' : Program) : Prop where
  symbols : p'.symbols = p.symbols.map ρ.symbol
  labels : p'.labels = p.labels.map ρ.label
  instructions : p'.instructions = p.instructions.map ρ.instruction
  words : p'.toImage.words = p.toImage.words
  origin : p'.origin = p.origin
  warnings : p'.warnings.length = p.warnings.length

end Renaming

/-- Findings that are the same but for names. -/
inductive Finding.Renames (ρ : Renaming) (lines : List Line) : Finding → Finding → Prop
  | remark (text text' : String) : Renames ρ lines (.remark text) (.remark text')
  | warning (text text' : String) : Renames ρ lines (.warning text) (.warning text')
  | error {d d' : Diagnostic} (h : ρ.Repeats lines d d') : Renames ρ lines (.error d) (.error d')
  | number (e : DigitLimit) : Renames ρ lines (.number e) (.number e)

namespace Renaming

open Assembly

variable (ρ : Renaming)

/-- Two assemblies fail with the same complaints about the same lines, or with the same number, or the
    second makes the program of the first with other names. -/
inductive Renamed (lines : List Line) :
    Except AssemblyError Program → Except AssemblyError Program → Prop
  | failed {ds ds' : List Diagnostic} {warnings warnings' : Array String} (hne : ds ≠ [])
      (h : List.Forall₂ (ρ.Repeats lines) ds ds') :
      Renamed lines (.error (Review.refusal ds warnings)) (.error (Review.refusal ds' warnings'))
  | number (e : DigitLimit) : Renamed lines (.error (.number e)) (.error (.number e))
  | made {p p' : Program} (h : ρ.Remakes p p') : Renamed lines (.ok p) (.ok p')

/-! ## First pass -/

theorem isCode_line (l : Line) : (ρ.line l).isCode = l.isCode := by
  unfold line Line.isCode
  cases l.statement <;> rfl

theorem declared?_line (l : Line) :
    (ρ.line l).declared? = l.declared?.map fun d => (ρ d.1, d.2) := by
  unfold line Line.declared?
  cases l.statement <;> rfl

theorem defined?_line (l : Line) : (ρ.line l).defined? = l.defined?.map ρ := by
  unfold line Line.defined?
  cases l.statement <;> rfl

theorem any_symbol (symbols : List Symbol) (x : String) :
    (symbols.map ρ.symbol).any (·.name == ρ x) = symbols.any (·.name == x) := by
  rw [List.any_map]
  congr 1
  funext s
  exact ρ.beq_eq s.name x

theorem find?_symbol (symbols : List Symbol) (x : String) :
    (symbols.map ρ.symbol).find? (·.name == ρ x) =
      (symbols.find? (·.name == x)).map ρ.symbol := by
  rw [List.find?_map]
  congr 2
  funext s
  exact ρ.beq_eq s.name x

theorem find?_label (labels : List Label) (x : String) :
    (labels.map ρ.label).find? (·.name == ρ x) = (labels.find? (·.name == x)).map ρ.label := by
  rw [List.find?_map]
  congr 2
  funext l
  exact ρ.beq_eq l.name x

section

variable {lines : List Line}

theorem declare_renamed (symbols : List Symbol) {l : Line} (hl : l ∈ lines) :
    (declare (symbols.map ρ.symbol) (ρ.line l)).1 = (declare symbols l).1.map ρ.symbol ∧
      List.Forall₂ (Finding.Renames ρ lines) (declare symbols l).2
        (declare (symbols.map ρ.symbol) (ρ.line l)).2 := by
  rw [declare_eq, declare_eq, declared?_line]
  cases l.declared? with
  | none => exact ⟨rfl, .nil⟩
  | some d =>
    obtain ⟨x, value⟩ := d
    rw [Option.map_some]
    dsimp only
    rw [any_symbol]
    split
    · exact ⟨rfl, .cons (.remark ..) .nil⟩
    · split
      · exact ⟨rfl, .cons (.error ⟨l, hl, _, _, .initialValue x value, rfl, rfl⟩) .nil⟩
      · refine ⟨?_, .nil⟩
        rw [List.map_append, List.length_map]
        rfl

theorem declareAll_renamed (symbols : List Symbol) {ls : List Line} (hls : ls ⊆ lines) :
    (declareAll (symbols.map ρ.symbol) (ls.map ρ.line)).1 =
        (declareAll symbols ls).1.map ρ.symbol ∧
      List.Forall₂ (Finding.Renames ρ lines) (declareAll symbols ls).2
        (declareAll (symbols.map ρ.symbol) (ls.map ρ.line)).2 := by
  induction ls generalizing symbols with
  | nil => exact ⟨rfl, .nil⟩
  | cons l ls ih =>
    obtain ⟨hl, hls⟩ := List.cons_subset.1 hls
    obtain ⟨hs, hf⟩ := ρ.declare_renamed symbols hl
    obtain ⟨hall, hmore⟩ := ih (declare symbols l).1 hls
    rw [List.map_cons, declareAll_cons, declareAll_cons, hs]
    exact ⟨hall, List.rel_append hf hmore⟩

theorem putLabel_renamed (new : Label) (labels : List Label) :
    putLabel (ρ.label new) (labels.map ρ.label) = (putLabel new labels).map ρ.label := by
  induction labels with
  | nil => rfl
  | cons l ls ih =>
    rw [List.map_cons]
    unfold putLabel
    have hname : (ρ.label l).name = (ρ.label new).name ↔ l.name = new.name := ρ.eq_iff
    rw [if_congr hname rfl rfl, ih]
    split <;> rfl

theorem bind_renamed (labels : List Label) (address : Nat) (l : Line) :
    (bind (labels.map ρ.label) address (ρ.line l)).1 = (bind labels address l).1.map ρ.label ∧
      List.Forall₂ (Finding.Renames ρ lines) (bind labels address l).2
        (bind (labels.map ρ.label) address (ρ.line l)).2 := by
  refine ⟨?_, ?_⟩
  · rw [bind_eq, bind_eq, defined?_line]
    cases l.defined? with
    | none => rfl
    | some x => exact ρ.putLabel_renamed ⟨x, address, l.location⟩ labels
  · unfold Assembly.bind line
    cases l.statement with
    | label x =>
      dsimp only [statement]
      rw [find?_label]
      cases labels.find? (·.name == x) with
      | none => exact .nil
      | some old => exact .cons (.warning ..) .nil
    | _ => exact .nil

theorem bindAll_renamed (labels : List Label) (address : Nat) (ls : List Line) :
    (bindAll (labels.map ρ.label) address (ls.map ρ.line)).1 =
        (bindAll labels address ls).1.map ρ.label ∧
      List.Forall₂ (Finding.Renames ρ lines) (bindAll labels address ls).2
        (bindAll (labels.map ρ.label) address (ls.map ρ.line)).2 := by
  induction ls generalizing labels address with
  | nil => exact ⟨rfl, .nil⟩
  | cons l ls ih =>
    obtain ⟨hl, hf⟩ := @bind_renamed ρ lines labels address l
    obtain ⟨hall, hmore⟩ := ih (Assembly.bind labels address l).1
      (if l.isCode then address + 1 else address)
    rw [List.map_cons, bindAll_cons, bindAll_cons, hl, isCode_line]
    exact ⟨hall, List.rel_append hf hmore⟩

end

/-- The tables with other names. -/
def tables (t : Tables) : Tables := ⟨t.symbols.map ρ.symbol, t.labels.map ρ.label⟩

theorem tabulate_renamed (lines : List Line) :
    (tabulate (lines.map ρ.line)).1 = ρ.tables (tabulate lines).1 ∧
      List.Forall₂ (Finding.Renames ρ lines) (tabulate lines).2
        (tabulate (lines.map ρ.line)).2 := by
  obtain ⟨hs, hf⟩ := ρ.declareAll_renamed [] (List.Subset.refl lines)
  obtain ⟨hl, hmore⟩ := @bindAll_renamed ρ lines [] (declareAll [] lines).1.length lines
  rw [List.map_nil] at hs hf hl hmore
  have hlen : (declareAll [] (lines.map ρ.line)).1.length = (declareAll [] lines).1.length := by
    rw [hs, List.length_map]
  have hfirst : ∀ ls, (tabulate ls).1 =
      ⟨(declareAll [] ls).1, (bindAll [] (declareAll [] ls).1.length ls).1⟩ := fun _ => rfl
  refine ⟨?_, ?_⟩
  · rw [hfirst, hfirst, hlen, hs, hl]
    rfl
  · show List.Forall₂ _
      ((declareAll [] lines).2 ++ (bindAll [] (declareAll [] lines).1.length lines).2 ++ [.remark _])
      ((declareAll [] (lines.map ρ.line)).2 ++
        (bindAll [] (declareAll [] (lines.map ρ.line)).1.length (lines.map ρ.line)).2 ++ [.remark _])
    rw [hlen]
    exact List.rel_append (List.rel_append hf hmore) (.cons (.remark ..) .nil)

/-! ## Second pass -/

/-- A renamed operand stands for the same number. -/
theorem resolve (t : Tables) (x : String) : resolve (ρ.tables t) (ρ x) = resolve t x := by
  unfold Assembly.resolve
  -- A numeral is left alone, and everything else is looked up among the renamed names.
  rw [isDigits_eq]
  cases hx : Text.isDigits x.toList with
  | true => rw [if_pos rfl, if_pos rfl, ρ.numeral x hx]
  | false =>
    rw [if_neg Bool.false_ne_true, if_neg Bool.false_ne_true]
    dsimp only [tables]
    rw [find?_label, find?_symbol]
    cases t.labels.find? (·.name == x) with
    | some l => rfl
    | none => cases t.symbols.find? (·.name == x) <;> rfl

/-- Encodings that are the same but for names. -/
structure Reencodes (lines : List Line) (e e' : Encoding) : Prop where
  findings : List.Forall₂ (Finding.Renames ρ lines) e.findings e'.findings
  instruction : e'.instruction = e.instruction.map ρ.instruction

theorem Reencodes.refused {lines : List Line} {found found' : List Finding}
    (h : List.Forall₂ (Finding.Renames ρ lines) found found') {f f' : Finding}
    (hf : Finding.Renames ρ lines f f') :
    ρ.Reencodes lines (.refused found f) (.refused found' f') :=
  ⟨List.rel_append h (.cons hf .nil), rfl⟩

theorem warned {lines : List Line} {found found' : List Finding}
    (h : List.Forall₂ (Finding.Renames ρ lines) found found') (c : Prop) [Decidable c] (l l' : Line)
    (text text' : String) : List.Forall₂ (Finding.Renames ρ lines)
      (if c then found ++ [l.warn text] else found)
      (if c then found' ++ [l'.warn text'] else found') := by
  split
  · exact List.rel_append h (.cons (.warning ..) .nil)
  · exact h

section

variable {lines : List Line} (t : Tables) (strict : Bool) {l : Line} (hl : l ∈ lines) (address : Nat)
include hl

theorem encodeOperand_renamed (op : Opcode) (x : String) {found found' : List Finding}
    (hf : List.Forall₂ (Finding.Renames ρ lines) found found') :
    ρ.Reencodes lines (encodeOperand t strict l address op x found)
      (encodeOperand (ρ.tables t) strict (ρ.line l) address op (ρ x) found') := by
  unfold encodeOperand
  rw [ρ.resolve]
  cases Assembly.resolve t x with
  | error e => exact .refused ρ hf (.number e)
  | ok r =>
    obtain ⟨n, res⟩ := r
    dsimp only
    split
    · exact .refused ρ hf (.error ⟨l, hl, _, _, .undefinedSymbol x _ _, rfl, rfl⟩)
    · have hwarned := ρ.warned hf (res = .undefined) l (ρ.line l)
        s!"undefined symbol '{x}', using operand 0" s!"undefined symbol '{ρ x}', using operand 0"
      split
      · cases Text.writeNumeral (Word.join op.code n) with
        | error e => exact .refused ρ hwarned (.number e)
        | ok s => exact .refused ρ hwarned (.error ⟨l, hl, _, _, .wideWord .., rfl, rfl⟩)
      · exact ⟨ρ.warned hwarned _ l (ρ.line l) _ _, rfl⟩

theorem encode_renamed : ρ.Reencodes lines (encode t strict l address)
    (encode (ρ.tables t) strict (ρ.line l) address) := by
  unfold encode
  rw [show (ρ.line l).statement = ρ.statement l.statement from rfl]
  cases l.statement with
  | instruction mnemonic operand extra =>
    dsimp only [statement]
    cases Opcode.ofMnemonic? mnemonic with
    | none =>
      exact .refused ρ .nil (.error ⟨l, hl, _, _, .unknownInstruction .., rfl, rfl⟩)
    | some op =>
      dsimp only
      have hextra : ∀ text, List.Forall₂ (Finding.Renames ρ lines)
          (if extra.isEmpty then [] else [l.warn text])
          (if extra.isEmpty then [] else [(ρ.line l).warn text]) := by
        intro text
        split
        · exact .nil
        · exact .cons (.warning ..) .nil
      split
      · exact ⟨hextra _, rfl⟩
      · cases operand with
        | none => exact .refused ρ (hextra _) (.error ⟨l, hl, _, _, .missingOperand .., rfl, rfl⟩)
        | some x => exact ρ.encodeOperand_renamed t strict hl address op x (hextra _)
  | _ => exact ⟨.nil, rfl⟩

omit hl in
theorem encodings_renamed {ls : List Line} (hls : ls ⊆ lines) (start : Nat) :
    List.Forall₂ (ρ.Reencodes lines)
      ((ls.zipIdx start).map fun (l, address) => encode t strict l address)
      (((ls.map ρ.line).zipIdx start).map fun (l, address) =>
        encode (ρ.tables t) strict l address) := by
  induction ls generalizing start with
  | nil => exact .nil
  | cons l ls ih =>
    obtain ⟨hl, hls⟩ := List.cons_subset.1 hls
    exact .cons (ρ.encode_renamed t strict hl start) (ih hls (start + 1))

end

theorem encodeAll_renamed (t : Tables) (strict : Bool) (lines : List Line) :
    List.Forall₂ (ρ.Reencodes lines) (encodeAll t strict lines)
      (encodeAll (ρ.tables t) strict (lines.map ρ.line)) := by
  have hcode : (lines.map ρ.line).filter Line.isCode = (lines.filter Line.isCode).map ρ.line := by
    rw [List.filter_map]
    congr 2
    funext l
    exact ρ.isCode_line l
  have horigin : (ρ.tables t).origin = t.origin := List.length_map _
  unfold encodeAll
  rw [hcode, horigin]
  exact ρ.encodings_renamed t strict List.filter_sublist.subset _

theorem of_reencodes {lines : List Line} {es es' : List Encoding}
    (h : List.Forall₂ (ρ.Reencodes lines) es es') :
    List.Forall₂ (Finding.Renames ρ lines) (es.flatMap Encoding.findings)
        (es'.flatMap Encoding.findings) ∧
      es'.filterMap Encoding.instruction = (es.filterMap Encoding.instruction).map ρ.instruction := by
  induction h with
  | nil => exact ⟨.nil, rfl⟩
  | @cons e e' es es' he _ ih =>
    refine ⟨List.rel_append he.findings ih.1, ?_⟩
    rw [List.filterMap_cons, List.filterMap_cons, he.instruction, ih.2]
    cases e.instruction <;> rfl

theorem findings_renamed (strict : Bool) (lines : List Line) :
    List.Forall₂ (Finding.Renames ρ lines) (findings strict lines)
      (findings strict (lines.map ρ.line)) := by
  obtain ⟨ht, hf⟩ := ρ.tabulate_renamed lines
  unfold findings
  rw [ht]
  exact List.rel_append hf (ρ.of_reencodes (ρ.encodeAll_renamed _ strict lines)).1

/-! ## Verdict -/

/-- Two reviews have collected the same diagnostics but for names, or have been stopped by the same
    number. -/
inductive Paired (lines : List Line) (r r' : Review) : Prop
  | collected {ds ds' : List Diagnostic} (h : List.Forall₂ (ρ.Repeats lines) ds ds')
      (hr : r.Collected ds) (hr' : r'.Collected ds')
  | number (e : DigitLimit) (hr : r.stopped = some (.number e)) (hr' : r'.stopped = some (.number e))

/-- What comes up next keeps two reviews together. -/
theorem Paired.enter {lines : List Line} {r r' : Review} (h : ρ.Paired lines r r') {f f' : Finding}
    (hf : Finding.Renames ρ lines f f') : ρ.Paired lines (r.enter f) (r'.enter f') := by
  cases h with
  | number e hr hr' =>
    rw [Review.enter_of_stopped hr, Review.enter_of_stopped hr']
    exact .number e hr hr'
  | @collected ds ds' hds hr hr' =>
    cases hf with
    | remark => exact .collected hds (hr.enter_quiet rfl) (hr'.enter_quiet rfl)
    | warning => exact .collected hds (hr.enter_quiet rfl) (hr'.enter_quiet rfl)
    | @error d d' hd =>
      exact .collected (List.rel_append hds (.cons hd .nil)) (hr.enter (d := some d) rfl)
        (hr'.enter (d := some d') rfl)
    | number e =>
      -- Both are full or both go on, because they have as many diagnostics.
      have hlen := hds.length_eq
      rcases hr.enter_number e with ⟨hn, hs⟩ | ⟨hn, hc⟩
      · rcases hr'.enter_number e with ⟨hn', hs'⟩ | ⟨hn', hc'⟩
        · exact .number e hs hs'
        · omega
      · rcases hr'.enter_number e with ⟨hn', hs'⟩ | ⟨hn', hc'⟩
        · omega
        · exact .collected hds hc hc'

theorem paired_ofFindings {lines : List Line} {fs fs' : List Finding}
    (h : List.Forall₂ (Finding.Renames ρ lines) fs fs') :
    ρ.Paired lines (Review.ofFindings fs) (Review.ofFindings fs') := by
  have hrun : ∀ {r r' : Review}, ρ.Paired lines r r' →
      ρ.Paired lines (fs.foldl Review.enter r) (fs'.foldl Review.enter r') := by
    induction h with
    | nil => exact id
    | cons hf _ ih => exact fun hr => ih (hr.enter ρ hf)
  have hstart : Review.start.Collected [] := .going (by decide) rfl rfl
  exact hrun (.collected .nil hstart hstart)

theorem symbolsByAddress_renamed {p p' : Program} (hs : p'.symbols = p.symbols.map ρ.symbol) :
    p'.symbolsByAddress = p.symbolsByAddress.map ρ.symbol := by
  unfold Program.symbolsByAddress
  rw [hs, List.map_mergeSort]
  exact fun _ _ _ _ => rfl

theorem words_renamed {p p' : Program} (hs : p'.symbols = p.symbols.map ρ.symbol)
    (hi : p'.instructions = p.instructions.map ρ.instruction) :
    p'.toImage.words = p.toImage.words := by
  show p'.data ++ p'.code = p.data ++ p.code
  unfold Program.data Program.code
  rw [ρ.symbolsByAddress_renamed hs, hi, List.map_map, List.map_map]
  rfl

theorem length_warnings {lines : List Line} {fs fs' : List Finding}
    (h : List.Forall₂ (Finding.Renames ρ lines) fs fs') :
    (fs'.filterMap Finding.warning?).length = (fs.filterMap Finding.warning?).length := by
  induction h with
  | nil => rfl
  | cons hf _ ih =>
    cases hf with
    | warning => exact congrArg Nat.succ ih
    | _ => exact ih

/-- Names carry no meaning but that they differ. With other names the same comes up at the same lines,
    in the same order; and an assembly fails with the same complaints about the same lines, or it makes
    the same words, with the same resolutions and addresses, and tables of the renamed names in the same
    order. -/
theorem ofLines_renamed (strict : Bool) (filename : String) (lines : List Line) :
    List.Forall₂ (Finding.Renames ρ lines) (findings strict lines)
        (findings strict (lines.map ρ.line)) ∧
      ρ.Renamed lines (ofLines strict filename lines).outcome
        (ofLines strict filename (lines.map ρ.line)).outcome := by
  have hf := ρ.findings_renamed strict lines
  refine ⟨hf, ?_⟩
  cases ρ.paired_ofFindings hf with
  | number e hr hr' =>
    have herror : ∀ {r : Review}, r.stopped = some (.number e) → r.error? = some (.number e) := by
      intro r hs
      unfold Review.error?
      rw [hs]
    rw [outcome_of_error (herror hr), outcome_of_error (herror hr')]
    exact .number e
  | @collected ds ds' hds hr hr' =>
    by_cases hne : ds = []
    · subst hne
      obtain rfl := List.forall₂_nil_left_iff.1 hds
      rw [outcome_of_no_error hr.error?_eq_none, outcome_of_no_error hr'.error?_eq_none]
      obtain ⟨ht, -⟩ := ρ.tabulate_renamed lines
      have hs : (tabulate (lines.map ρ.line)).1.symbols =
          (tabulate lines).1.symbols.map ρ.symbol := congrArg Tables.symbols ht
      have hi : (encodeAll (tabulate (lines.map ρ.line)).1 strict (lines.map ρ.line)).filterMap
          Encoding.instruction =
            ((encodeAll (tabulate lines).1 strict lines).filterMap Encoding.instruction).map
              ρ.instruction := by
        rw [ht]
        exact (ρ.of_reencodes (ρ.encodeAll_renamed _ strict lines)).2
      exact .made ⟨hs, congrArg Tables.labels ht, hi, ρ.words_renamed hs hi,
        (congrArg List.length hs).trans (List.length_map _), ρ.length_warnings hf⟩
    · have hne' : ds' ≠ [] := by
        rintro rfl
        exact hne (List.forall₂_nil_right_iff.1 hds)
      obtain ⟨warnings, he⟩ := hr.error?_eq hne
      obtain ⟨warnings', he'⟩ := hr'.error?_eq hne'
      rw [outcome_of_error he, outcome_of_error he']
      exact .failed hne hds

/-- The tables of the renamed program have the renamed names, in the same order. -/
theorem Remakes.names {p p' : Program} (h : ρ.Remakes p p') :
    p'.symbols.map Symbol.name = (p.symbols.map Symbol.name).map ρ ∧
      p'.labels.map Label.name = (p.labels.map Label.name).map ρ := by
  rw [h.symbols, h.labels, List.map_map, List.map_map, List.map_map, List.map_map]
  exact ⟨rfl, rfl⟩

/-- A variable and a label change names. The lines still assemble, to the program with the two names
    changed, and it has the same words. -/
theorem ofLines_renamed_swap :
    let line (n : Int) (s : Statement) : Line := ⟨s, "", ⟨"", n, 1⟩, ""⟩
    let lines := [line 1 (.variable "x" 5), line 2 (.label "loop"),
      line 3 (.instruction "LOAD" (some "x") []), line 4 (.instruction "JUMP" (some "loop") [])]
    let ρ := swap "x" "loop" (by decide) (by decide)
    ∃ p p', (ofLines true "" lines).outcome = .ok p ∧
      (ofLines true "" (lines.map ρ.line)).outcome = .ok p' ∧ p'.toImage.words = p.toImage.words ∧
      p'.symbols.map Symbol.name = ["loop"] ∧ p'.labels.map Label.name = ["x"] := by
  intro line lines ρ
  obtain ⟨-, hrenamed⟩ := ρ.ofLines_renamed true "" lines
  have hnames : (ofLines true "" lines).outcome.toOption.map (fun p =>
      (p.symbols.map Symbol.name, p.labels.map Label.name)) = some (["x"], ["loop"]) := by
    decide +kernel
  generalize (ofLines true "" lines).outcome = made,
    (ofLines true "" (lines.map ρ.line)).outcome = made' at hrenamed hnames
  cases hrenamed with
  | failed => cases hnames
  | number => cases hnames
  | @made p p' h =>
    obtain ⟨hx, hloop⟩ := Prod.mk.inj (Option.some.inj hnames)
    obtain ⟨hsymbols, hlabels⟩ := h.names
    rw [hx] at hsymbols
    rw [hloop] at hlabels
    exact ⟨p, p', rfl, rfl, h.words, hsymbols.trans (by decide), hlabels.trans (by decide)⟩

end Renaming

end DecimalMachine
