import Mathlib.Data.List.Forall2
import DecimalMachine.Proofs.Encodings
/-
  The shape of a source: the variables that its lines declare with their values, in order, and apart
  from them the labels and the instructions, in order, each with its operation and its operand. Nothing
  else about the lines matters to the assembly (`agrees_ofLines`): blank lines and comments, the
  spelling of the mnemonics, the places of the lines and of the declarations among the code do not.
  Each pass skips the lines that say nothing to it and treats lines that say the same alike. What the
  findings amount to depends only on how many errors there are and on the first number that is too
  long (`tally_ofFindings`).
-/
namespace DecimalMachine

/-- What a line is in the code: a label, or an instruction with the operation that its mnemonic stands
    for, if there is one, and its operand. -/
inductive Item
  | label (name : String)
  | code (op : Option Opcode) (operand : Option String)
deriving DecidableEq

def Line.item? (l : Line) : Option Item :=
  match l.statement with
  | .label name => some (.label name)
  | .instruction mnemonic operand _ => some (.code (Opcode.ofMnemonic? mnemonic) operand)
  | _ => none

/-- The number that could not be read or written, if the error is not a diagnostic. -/
def AssemblyError.limit? : AssemblyError → Option DigitLimit
  | .diagnostic _ => none
  | .number e => some e

/-- What a finding counts for: a diagnostic or a number that is too long. -/
def Finding.mishap? (f : Finding) : Option (Option DigitLimit) := f.failure?.map AssemblyError.limit?

/-- A symbol without its place in the source. -/
def Symbol.entry (s : Symbol) : String × Nat × Int := (s.name, s.address, s.initial)

def Label.entry (l : Label) : String × Nat := (l.name, l.address)

/-- An instruction without its line. -/
def Instruction.entry (i : Instruction) : Nat × Int × Opcode × Nat × Option Resolution :=
  (i.address, i.word, i.opcode, i.operand, i.resolution)

namespace Assembly

/-! ## Counting errors -/

namespace Review

/-- What is left of a review without the texts in it. -/
structure Tally where
  limit : Int
  errors : Nat
  stopped : Option (Option DigitLimit)

def tally (r : Review) : Tally :=
  ⟨r.collector.limit, r.collector.errors.size, r.stopped.map AssemblyError.limit?⟩

def Tally.count (t : Tally) (mishap : Option DigitLimit) : Tally :=
  if t.stopped.isSome then t
  else
    match mishap with
    | some e => { t with stopped := some (some e) }
    | none =>
      { t with
        errors := t.errors + 1
        stopped := if t.limit ≤ (t.errors + 1 : Nat) then some none else none }

theorem tally_enter (r : Review) (f : Finding) :
    (r.enter f).tally = (f.mishap?.elim r.tally r.tally.count) := by
  unfold enter Tally.count
  have hstopped : r.tally.stopped.isSome = r.stopped.isSome := by simp [tally]
  rw [hstopped]
  cases hs : r.stopped with
  | some e => cases f <;> rfl
  | none =>
    cases f with
    | error d =>
      simp only [tally, hs, Collector.add, Collector.isFull, Finding.mishap?, Finding.failure?,
        AssemblyError.limit?, Option.isSome_none, Bool.false_eq_true, if_false, Option.map_some,
        Option.elim_some, Array.size_push, decide_eq_true_eq, Tally.mk.injEq, true_and]
      split <;> rfl
    | _ => simp [tally, hs, note, Collector.warn, Finding.mishap?, Finding.failure?,
        AssemblyError.limit?]

/-- Findings that are no errors do not count. -/
theorem tally_ofFindings (fs : List Finding) :
    (ofFindings fs).tally = (fs.filterMap Finding.mishap?).foldl Tally.count start.tally := by
  unfold ofFindings
  generalize start = r
  induction fs generalizing r with
  | nil => rfl
  | cons f fs ih =>
    rw [List.foldl_cons, ih, tally_enter, List.filterMap_cons]
    cases f.mishap? <;> rfl

theorem map_error? (r : Review) : r.error?.map AssemblyError.limit? =
    r.tally.stopped.or (if 0 < r.tally.errors then some none else none) := by
  unfold error? tally Collector.hasErrors
  cases r.stopped with
  | some e => rfl
  | none =>
    by_cases h : 0 < r.collector.errors.size <;> simp [h, AssemblyError.limit?]

end Review

/-! ## Lines that say the same -/

/-- Lists that give the same values through a partial function correspond where it has any. -/
theorem forall₂_of_filterMap_eq {α β : Type} {f : α → Option β} {xs ys : List α}
    (h : xs.filterMap f = ys.filterMap f) :
    List.Forall₂ (fun x y => f x = f y) (xs.filter (f · |>.isSome)) (ys.filter (f · |>.isSome)) := by
  have hfilter : ∀ zs : List α, (zs.filter (f · |>.isSome)).map f = (zs.filterMap f).map some := by
    intro zs
    induction zs with
    | nil => rfl
    | cons z zs ih =>
      rw [List.filter_cons, List.filterMap_cons]
      cases hz : f z with
      | none => simpa using ih
      | some b => simpa [hz] using ih
  have hmap := (hfilter xs).trans ((congrArg (List.map some) h).trans (hfilter ys).symm)
  have hsame := List.forall₂_eq_eq_eq ▸ hmap
  rwa [List.forall₂_map_left_iff, List.forall₂_map_right_iff] at hsame

/-! ## First pass -/

/-- Only lines that declare something are looked at for variables. -/
theorem declareAll_filter (symbols : List Symbol) (lines : List Line) :
    declareAll symbols (lines.filter (·.declared?.isSome)) = declareAll symbols lines := by
  induction lines generalizing symbols with
  | nil => rfl
  | cons l ls ih =>
    rw [List.filter_cons, declareAll_cons]
    cases hd : l.declared? with
    | none =>
      have hkeep : declare symbols l = (symbols, []) := by rw [declare_eq, hd]
      rw [hkeep]
      exact ih symbols
    | some d =>
      rw [Option.isSome_some, if_pos rfl, declareAll_cons, ih]

/-- The same symbols and the same errors, wherever they stand. -/
def SameSymbols (r r' : List Symbol × List Finding) : Prop :=
  r.1.map Symbol.entry = r'.1.map Symbol.entry ∧
    r.2.filterMap Finding.mishap? = r'.2.filterMap Finding.mishap?

theorem any_name_of_entries {ss ss' : List Symbol} (h : ss.map Symbol.entry = ss'.map Symbol.entry)
    (x : String) : ss.any (·.name == x) = ss'.any (·.name == x) := by
  have hany : ∀ ss : List Symbol, ss.any (·.name == x) = (ss.map Symbol.entry).any (·.1 == x) := by
    intro ss
    rw [List.any_map]
    rfl
  rw [hany, hany, h]

theorem sameSymbols_declare {ss ss' : List Symbol} (h : ss.map Symbol.entry = ss'.map Symbol.entry)
    {l l' : Line} (hl : l.declared? = l'.declared?) :
    SameSymbols (declare ss l) (declare ss' l') := by
  have hlen : ss.length = ss'.length := by simpa using congrArg List.length h
  rw [declare_eq, declare_eq, hl]
  cases l'.declared? with
  | none => exact ⟨h, rfl⟩
  | some d =>
    obtain ⟨name, value⟩ := d
    dsimp only
    rw [any_name_of_entries h]
    split
    · exact ⟨h, rfl⟩
    · split
      · exact ⟨h, rfl⟩
      · refine ⟨?_, rfl⟩
        rw [List.map_append, List.map_append, h, hlen]
        rfl

theorem sameSymbols_declareAll {ls ls' : List Line}
    (hl : List.Forall₂ (fun l l' => l.declared? = l'.declared?) ls ls') {ss ss' : List Symbol}
    (h : ss.map Symbol.entry = ss'.map Symbol.entry) :
    SameSymbols (declareAll ss ls) (declareAll ss' ls') := by
  induction hl generalizing ss ss' with
  | nil => exact ⟨h, rfl⟩
  | cons hl _ ih =>
    obtain ⟨hs, hf⟩ := sameSymbols_declare h hl
    obtain ⟨hall, hfs⟩ := ih hs
    rw [declareAll_cons, declareAll_cons]
    refine ⟨hall, ?_⟩
    rw [List.filterMap_append, List.filterMap_append, hf, hfs]

/-- What the first pass asks of a line apart from its declaration is said by its item. -/
theorem isCode_eq (l : Line) : l.isCode = l.item?.any fun
    | .label _ => false
    | .code .. => true := by
  unfold Line.isCode Line.item?
  cases l.statement <;> rfl

theorem defined?_eq (l : Line) : l.defined? = l.item?.bind fun
    | .label name => some name
    | .code .. => none := by
  unfold Line.defined? Line.item?
  cases l.statement <;> rfl

theorem item?_of_isCode {l : Line} (h : l.isCode = true) : l.item?.isSome = true := by
  rw [isCode_eq] at h
  cases hi : l.item? with
  | none =>
    rw [hi] at h
    cases h
  | some i => rfl

theorem isCode_of_item? {l l' : Line} (h : l.item? = l'.item?) : l.isCode = l'.isCode := by
  rw [isCode_eq, isCode_eq, h]

/-- Only labels and instructions are looked at for labels. -/
theorem bindAll_filter (labels : List Label) (address : Nat) (lines : List Line) :
    bindAll labels address (lines.filter (·.item?.isSome)) = bindAll labels address lines := by
  induction lines generalizing labels address with
  | nil => rfl
  | cons l ls ih =>
    rw [List.filter_cons, bindAll_cons]
    cases hi : l.item? with
    | none =>
      have hcode : l.isCode = false := by
        rw [isCode_eq, hi]
        rfl
      have hkeep : bind labels address l = (labels, []) := by
        unfold Assembly.bind
        unfold Line.item? at hi
        cases hs : l.statement with
        | label name => rw [hs] at hi; cases hi
        | _ => rfl
      rw [hkeep, hcode]
      exact ih labels address
    | some i =>
      rw [Option.isSome_some, if_pos rfl, bindAll_cons, ih]

theorem putLabel_of_entries {new new' : Label} (hn : new.entry = new'.entry) {ls ls' : List Label}
    (h : ls.map Label.entry = ls'.map Label.entry) :
    (putLabel new ls).map Label.entry = (putLabel new' ls').map Label.entry := by
  have hname : new.name = new'.name := congrArg Prod.fst hn
  induction ls generalizing ls' with
  | nil =>
    obtain rfl : ls' = [] := List.map_eq_nil_iff.1 h.symm
    exact congrArg (fun e => [e]) hn
  | cons l ls ih =>
    obtain ⟨l', ls', rfl, hl, hls⟩ := List.map_eq_cons_iff.1 h.symm
    have hold : l.name = l'.name := congrArg Prod.fst hl.symm
    unfold putLabel
    rw [← hold, ← hname]
    split
    · rw [List.map_cons, List.map_cons, hn, hls]
    · rw [List.map_cons, List.map_cons, hl, ih hls.symm]

theorem bind_of_entries {labels labels' : List Label}
    (h : labels.map Label.entry = labels'.map Label.entry) (address : Nat) {l l' : Line}
    (hl : l.item? = l'.item?) :
    (bind labels address l).1.map Label.entry = (bind labels' address l').1.map Label.entry := by
  rw [bind_eq, bind_eq, show l.defined? = l'.defined? by rw [defined?_eq, defined?_eq, hl]]
  cases l'.defined? with
  | none => exact h
  | some x =>
    have hnew : Label.entry ⟨x, address, l.location⟩ = Label.entry ⟨x, address, l'.location⟩ := rfl
    exact putLabel_of_entries hnew h

theorem bindAll_of_entries {ls ls' : List Line}
    (hl : List.Forall₂ (fun l l' => l.item? = l'.item?) ls ls') {labels labels' : List Label}
    (h : labels.map Label.entry = labels'.map Label.entry) (address : Nat) :
    (bindAll labels address ls).1.map Label.entry =
      (bindAll labels' address ls').1.map Label.entry := by
  induction hl generalizing labels labels' address with
  | nil => exact h
  | @cons l l' ls ls' hl _ ih =>
    rw [bindAll_cons, bindAll_cons, isCode_of_item? hl]
    exact ih (bind_of_entries h address hl) _

/-! ## Second pass -/

/-- Tables with the same entries. -/
structure Tables.Like (t t' : Tables) : Prop where
  symbols : t.symbols.map Symbol.entry = t'.symbols.map Symbol.entry
  labels : t.labels.map Label.entry = t'.labels.map Label.entry

theorem Tables.Like.resolve {t t' : Tables} (h : t.Like t') (x : String) :
    resolve t x = resolve t' x := by
  have hlabel : ∀ ls : List Label, (ls.find? (·.name == x)).map Label.address =
      ((ls.map Label.entry).find? (·.1 == x)).map Prod.snd := by
    intro ls
    rw [List.find?_map, Option.map_map]
    rfl
  have hsymbol : ∀ ss : List Symbol, (ss.find? (·.name == x)).map Symbol.address =
      ((ss.map Symbol.entry).find? (·.1 == x)).map (·.2.1) := by
    intro ss
    rw [List.find?_map, Option.map_map]
    rfl
  have hls : (t.labels.find? (·.name == x)).map Label.address =
      (t'.labels.find? (·.name == x)).map Label.address := by
    rw [hlabel, hlabel, h.labels]
  have hss : (t.symbols.find? (·.name == x)).map Symbol.address =
      (t'.symbols.find? (·.name == x)).map Symbol.address := by
    rw [hsymbol, hsymbol, h.symbols]
  unfold Assembly.resolve
  split
  · rfl
  · cases hl : t.labels.find? (·.name == x) with
    | some l =>
      rw [hl] at hls
      obtain ⟨l', hl', ha⟩ := Option.map_eq_some_iff.1 hls.symm
      rw [hl']
      exact congrArg (fun n => Except.ok (n, Resolution.label)) ha.symm
    | none =>
      rw [hl] at hls
      rw [Option.map_eq_none_iff.1 hls.symm]
      cases hs : t.symbols.find? (·.name == x) with
      | some s =>
        rw [hs] at hss
        obtain ⟨s', hs', ha⟩ := Option.map_eq_some_iff.1 hss.symm
        rw [hs']
        exact congrArg (fun n => Except.ok (n, Resolution.variable)) ha.symm
      | none =>
        rw [hs] at hss
        rw [Option.map_eq_none_iff.1 hss.symm]

/-- Encodings with the same errors and the same instruction. -/
structure Encoding.Like (e e' : Encoding) : Prop where
  mishaps : e.findings.filterMap Finding.mishap? = e'.findings.filterMap Finding.mishap?
  entry : e.instruction.map Instruction.entry = e'.instruction.map Instruction.entry

theorem Encoding.Like.refused {found found' : List Finding}
    (h : found.filterMap Finding.mishap? = found'.filterMap Finding.mishap?) {f f' : Finding}
    (hf : f.mishap? = f'.mishap?) : Encoding.Like (.refused found f) (.refused found' f') := by
  refine ⟨?_, rfl⟩
  show (found ++ [f]).filterMap _ = (found' ++ [f']).filterMap _
  rw [List.filterMap_append, List.filterMap_append, h, List.filterMap_cons, List.filterMap_cons, hf]

theorem mishaps_warned (found : List Finding) (c : Prop) [Decidable c] (l : Line) (text : String) :
    (if c then found ++ [l.warn text] else found).filterMap Finding.mishap? =
      found.filterMap Finding.mishap? := by
  split
  · rw [List.filterMap_append]
    exact List.append_nil _
  · rfl

theorem mishaps_extra (extra : List String) (l : Line) {text : String} :
    (if extra.isEmpty then [] else [l.warn text]).filterMap Finding.mishap? = [] := by
  split <;> rfl

theorem exists_of_isCode {l : Line} (h : l.isCode = true) :
    ∃ mnemonic operand extra, l.statement = .instruction mnemonic operand extra := by
  unfold Line.isCode at h
  split at h
  · rename_i mnemonic operand extra hs
    exact ⟨mnemonic, operand, extra, hs⟩
  · cases h

section

variable {t t' : Tables} (h : t.Like t') (strict : Bool) {l l' : Line} (address : Nat)
include h

theorem like_encodeOperand (op : Opcode) (x : String) {found found' : List Finding}
    (hf : found.filterMap Finding.mishap? = found'.filterMap Finding.mishap?) :
    (encodeOperand t strict l address op x found).Like
      (encodeOperand t' strict l' address op x found') := by
  unfold encodeOperand
  rw [h.resolve]
  cases resolve t' x with
  | error e => exact .refused hf rfl
  | ok r =>
    obtain ⟨n, res⟩ := r
    dsimp only
    split
    · exact .refused hf rfl
    · have hwarned := (mishaps_warned found (res = .undefined) l
        s!"undefined symbol '{x}', using operand 0").trans (hf.trans
          (mishaps_warned found' (res = .undefined) l'
            s!"undefined symbol '{x}', using operand 0").symm)
      split
      · cases Text.writeNumeral (Word.join op.code n) with
        | error e => exact .refused hwarned rfl
        | ok s => exact .refused hwarned rfl
      · exact ⟨(mishaps_warned ..).trans (hwarned.trans (mishaps_warned ..).symm), rfl⟩

theorem like_encode (hc : l.isCode = true) (hl : l.item? = l'.item?) :
    (encode t strict l address).Like (encode t' strict l' address) := by
  obtain ⟨mnemonic, operand, extra, hs⟩ := exists_of_isCode hc
  obtain ⟨mnemonic', operand', extra', hs'⟩ := exists_of_isCode (isCode_of_item? hl ▸ hc)
  unfold Line.item? at hl
  rw [hs, hs'] at hl
  obtain ⟨hop, rfl⟩ := Item.code.inj (Option.some.inj hl)
  unfold encode
  rw [hs, hs']
  dsimp only
  rw [← hop]
  cases Opcode.ofMnemonic? mnemonic with
  | none =>
    have hstart : ([] : List Finding).filterMap Finding.mishap? = [].filterMap Finding.mishap? := rfl
    exact .refused hstart rfl
  | some op =>
    have hextra : ∀ text text',
        (if extra.isEmpty then [] else [l.warn text]).filterMap Finding.mishap? =
          (if extra'.isEmpty then [] else [l'.warn text']).filterMap Finding.mishap? :=
      fun _ _ => (mishaps_extra ..).trans (mishaps_extra ..).symm
    dsimp only
    split
    · exact ⟨hextra _ _, rfl⟩
    · cases operand with
      | none => exact .refused (hextra _ _) rfl
      | some x => exact like_encodeOperand h strict address op x (hextra _ _)

theorem like_encodings {ls ls' : List Line}
    (hl : List.Forall₂ (fun l l' => l.item? = l'.item?) ls ls') (hc : ∀ l ∈ ls, l.isCode = true)
    (start : Nat) :
    List.Forall₂ Encoding.Like
      ((ls.zipIdx start).map fun (l, address) => encode t strict l address)
      ((ls'.zipIdx start).map fun (l, address) => encode t' strict l address) := by
  induction hl generalizing start with
  | nil => exact .nil
  | @cons l l' ls ls' hl _ ih =>
    rw [List.zipIdx_cons, List.zipIdx_cons]
    exact .cons (like_encode h strict start (hc l List.mem_cons_self) hl)
      (ih (fun k hk => hc k (List.mem_cons_of_mem l hk)) (start + 1))

end

theorem of_like {es es' : List Encoding} (h : List.Forall₂ Encoding.Like es es') :
    (es.flatMap Encoding.findings).filterMap Finding.mishap? =
        (es'.flatMap Encoding.findings).filterMap Finding.mishap? ∧
      (es.filterMap Encoding.instruction).map Instruction.entry =
        (es'.filterMap Encoding.instruction).map Instruction.entry := by
  induction h with
  | nil => exact ⟨rfl, rfl⟩
  | @cons e e' es es' he _ ih =>
    rw [List.flatMap_cons, List.flatMap_cons, List.filterMap_append, List.filterMap_append,
      he.mishaps, ih.1]
    refine ⟨rfl, ?_⟩
    have hcons : ∀ (e : Encoding) (es : List Encoding),
        ((e :: es).filterMap Encoding.instruction).map Instruction.entry =
          (e.instruction.map Instruction.entry).toList ++
            (es.filterMap Encoding.instruction).map Instruction.entry := by
      intro e es
      rw [List.filterMap_cons]
      cases e.instruction <;> rfl
    rw [hcons, hcons, he.entry, ih.2]

/-! ## Both passes -/

/-- The lines declare the same variables with the same values, in order, and have the same labels and
    instructions, in order. How declarations and code are mixed does not matter. -/
structure SameShape (lines lines' : List Line) : Prop where
  declared : lines.filterMap Line.declared? = lines'.filterMap Line.declared?
  items : lines.filterMap Line.item? = lines'.filterMap Line.item?

/-- How many errors are collected at some lines. -/
def collected (strict : Bool) (lines : List Line) : Nat :=
  (Review.ofFindings (findings strict lines)).collector.errors.size

/-- Two assemblies fail alike, or their programs are the same but for the places of names and
    instructions in the source, and for the warnings. -/
inductive Agrees : Except AssemblyError Program → Except AssemblyError Program → Prop
  | failed {e e' : AssemblyError} (h : e.limit? = e'.limit?) : Agrees (.error e) (.error e')
  | made {p p' : Program} (symbols : p.symbols.map Symbol.entry = p'.symbols.map Symbol.entry)
      (labels : p.labels.map Label.entry = p'.labels.map Label.entry)
      (instructions : p.instructions.map Instruction.entry = p'.instructions.map Instruction.entry)
      (image : p.toImage = p'.toImage) : Agrees (.ok p) (.ok p')

theorem entries_symbolsByAddress (p : Program) : p.symbolsByAddress.map Symbol.entry =
    (p.symbols.map Symbol.entry).mergeSort fun a b => a.2.1 ≤ b.2.1 := by
  unfold Program.symbolsByAddress
  rw [List.map_mergeSort]
  exact fun _ _ _ _ => rfl

/-- The image has nothing of a program but the entries of its symbols and instructions. -/
theorem toImage_of_entries {p p' : Program}
    (hs : p.symbols.map Symbol.entry = p'.symbols.map Symbol.entry)
    (hi : p.instructions.map Instruction.entry = p'.instructions.map Instruction.entry) :
    p.toImage = p'.toImage := by
  have hlen : p.symbols.length = p'.symbols.length := by simpa using congrArg List.length hs
  have hsorted : p.symbolsByAddress.map Symbol.entry = p'.symbolsByAddress.map Symbol.entry := by
    rw [entries_symbolsByAddress, entries_symbolsByAddress, hs]
  have hdata := congrArg (List.map fun e : String × Nat × Int => Word.render e.2.2) hsorted
  have hnames := congrArg (List.map fun e : String × Nat × Int => ((e.2.1 : Int), e.1)) hsorted
  have hcode := congrArg
    (List.map fun e : Nat × Int × Opcode × Nat × Option Resolution => Word.render e.2.1) hi
  simp only [List.map_map] at hdata hnames hcode
  show (⟨p.data ++ p.code, p.origin, .ofList _⟩ : Image) = ⟨p'.data ++ p'.code, p'.origin, .ofList _⟩
  rw [show p.data = p'.data from hdata, show p.code = p'.code from hcode,
    show p.origin = p'.origin from hlen]
  exact congrArg (fun names => Image.mk _ _ (.ofList names)) hnames

/-- The first pass fails in declarations only. -/
theorem mishaps_tabulate (lines : List Line) : (tabulate lines).2.filterMap Finding.mishap? =
    (declareAll [] lines).2.filterMap Finding.mishap? := by
  have hbind : ∀ labels address,
      (bindAll labels address lines).2.filterMap Finding.mishap? = [] := by
    intro labels address
    unfold Finding.mishap?
    rw [← List.map_filterMap, failures_bindAll]
    rfl
  rw [filterMap_tabulate fun _ => rfl, hbind, List.append_nil]

namespace SameShape

variable {lines lines' : List Line} (h : SameShape lines lines')
include h

theorem tabulate : (tabulate lines).1.Like (tabulate lines').1 ∧
    (tabulate lines).2.filterMap Finding.mishap? =
      (tabulate lines').2.filterMap Finding.mishap? := by
  obtain ⟨hsymbols, hmishaps⟩ := sameSymbols_declareAll (forall₂_of_filterMap_eq h.declared)
    (rfl : ([] : List Symbol).map Symbol.entry = [])
  have hlabels := bindAll_of_entries (forall₂_of_filterMap_eq h.items)
    (rfl : ([] : List Label).map Label.entry = [])
  simp only [declareAll_filter, bindAll_filter] at hsymbols hmishaps hlabels
  have hlen : (declareAll [] lines).1.length = (declareAll [] lines').1.length := by
    simpa using congrArg List.length hsymbols
  refine ⟨⟨hsymbols, ?_⟩, ?_⟩
  · show (bindAll [] (declareAll [] lines).1.length lines).1.map Label.entry =
      (bindAll [] (declareAll [] lines').1.length lines').1.map Label.entry
    rw [hlen]
    exact hlabels _
  · rw [mishaps_tabulate, mishaps_tabulate]
    exact hmishaps

theorem encodeAll (strict : Bool) :
    List.Forall₂ Encoding.Like (encodeAll (Assembly.tabulate lines).1 strict lines)
      (encodeAll (Assembly.tabulate lines').1 strict lines') := by
  obtain ⟨htables, -⟩ := h.tabulate
  have horigin : (Assembly.tabulate lines).1.origin = (Assembly.tabulate lines').1.origin := by
    simpa [Tables.origin] using congrArg List.length htables.symbols
  have hcode : List.Forall₂ (fun l l' => l.item? = l'.item?) (lines.filter Line.isCode)
      (lines'.filter Line.isCode) := by
    have hfilter : ∀ ls : List Line,
        (ls.filter (·.item?.isSome)).filter Line.isCode = ls.filter Line.isCode := by
      intro ls
      rw [List.filter_filter]
      congr 1
      funext l
      cases hc : l.isCode with
      | true => exact item?_of_isCode hc
      | false => rfl
    rw [← hfilter lines, ← hfilter lines']
    refine List.rel_filter (fun l l' hl => ?_) (forall₂_of_filterMap_eq h.items)
    show l.isCode = true ↔ l'.isCode = true
    rw [isCode_of_item? hl]
  unfold Assembly.encodeAll
  rw [horigin]
  exact like_encodings htables strict hcode (fun l hl => (List.mem_filter.1 hl).2) _

theorem findings (strict : Bool) : (findings strict lines).filterMap Finding.mishap? =
    (findings strict lines').filterMap Finding.mishap? := by
  unfold Assembly.findings
  rw [List.filterMap_append, List.filterMap_append, h.tabulate.2, (of_like (h.encodeAll strict)).1]

/-- Lines of one shape are assembled alike. -/
theorem agrees_ofLines (strict : Bool) (filename filename' : String) :
    collected strict lines = collected strict lines' ∧
      Agrees (ofLines strict filename lines).outcome (ofLines strict filename' lines').outcome := by
  have htally : (Review.ofFindings (Assembly.findings strict lines)).tally =
      (Review.ofFindings (Assembly.findings strict lines')).tally := by
    rw [Review.tally_ofFindings, Review.tally_ofFindings, h.findings]
  refine ⟨congrArg Review.Tally.errors htally, ?_⟩
  have herror : (Review.ofFindings (Assembly.findings strict lines)).error?.map
      AssemblyError.limit? = (Review.ofFindings (Assembly.findings strict lines')).error?.map
        AssemblyError.limit? := by
    rw [Review.map_error?, Review.map_error?, htally]
  cases he : (Review.ofFindings (Assembly.findings strict lines)).error? with
  | some e =>
    rw [he] at herror
    obtain ⟨e', he', hlimit⟩ := Option.map_eq_some_iff.1 herror.symm
    rw [outcome_of_error he, outcome_of_error he']
    exact .failed hlimit.symm
  | none =>
    rw [he] at herror
    have he' := Option.map_eq_none_iff.1 herror.symm
    rw [outcome_of_no_error he, outcome_of_no_error he']
    obtain ⟨htables, -⟩ := h.tabulate
    have hinstructions := (of_like (h.encodeAll strict)).2
    exact .made htables.symbols htables.labels hinstructions
      (toImage_of_entries htables.symbols hinstructions)

end SameShape

end Assembly

end DecimalMachine
