import DecimalMachine.Proofs.Tables
/-
  Encodings: what the second pass makes of the instruction lines. An operand is resolved to what it
  means in the source (`Tables.Of.resolve_eq`). Where nothing goes wrong every instruction line has
  its instruction and the warnings that are due (`yields_of_quiet`), and the instructions of a program
  are those of its lines one by one (`compiled_of_assemble`); where there is no warning either, every
  operand is defined and fits in two digits (`makes_of_assemble`).
-/
namespace DecimalMachine

namespace Assembly

open Source

/-! ## Operands -/

theorem Tables.Of.find?_symbols {lines : List Line} {t : Tables} (h : t.Of lines) (x : String) :
    (t.symbols.find? (·.name == x)).map Symbol.address =
      if x ∈ declared lines then some ((declared lines).idxOf x) else none := by
  cases hs : t.symbols.find? (·.name == x) with
  | some s =>
    have hmem := List.mem_of_find?_eq_some hs
    have hname : s.name = x := by simpa using List.find?_some hs
    have hv : x ∈ declared lines := h.symbols.mem_declared.2 ⟨s, hmem, hname⟩
    rw [if_pos hv, Option.map_some, h.symbols.address_eq hmem, hname]
  | none =>
    have hv : x ∉ declared lines := by
      rw [h.symbols.mem_declared]
      simpa using hs
    rw [if_neg hv]
    rfl

/-- An operand is resolved to what it means in the source. -/
theorem Tables.Of.resolve_eq {lines : List Line} {t : Tables} (h : t.Of lines) (x : String) :
    resolve t x = meaning lines x := by
  have hlabel := h.labels x
  have hsymbol := h.find?_symbols x
  unfold resolve meaning
  by_cases hd : Text.isDigits x.toList = true
  · rw [if_pos hd, if_pos hd]
  · rw [if_neg hd, if_neg hd]
    cases hl : t.labels.find? (·.name == x) with
    | some l =>
      rw [hl] at hlabel
      obtain ⟨i, hi, hli⟩ := Option.map_eq_some_iff.1 hlabel.symm
      rw [hi]
      exact congrArg (fun n => Except.ok (n, Resolution.label)) hli.symm
    | none =>
      rw [hl] at hlabel
      rw [Option.map_eq_none_iff.1 hlabel.symm]
      dsimp only
      cases hs : t.symbols.find? (·.name == x) with
      | some s =>
        rw [hs] at hsymbol
        by_cases hv : x ∈ declared lines
        · rw [if_pos hv] at hsymbol ⊢
          rw [← Option.some.inj hsymbol]
        · rw [if_neg hv] at hsymbol
          cases hsymbol
      | none =>
        rw [hs] at hsymbol
        by_cases hv : x ∈ declared lines
        · rw [if_pos hv] at hsymbol
          cases hsymbol
        · rw [if_neg hv]

/-! ## Instructions -/

/-- An instruction line and its instruction. -/
inductive Assembles (lines : List Line) (l : Line) (address : Nat) : Instruction → Prop
  | bare {mnemonic : String} {operand : Option String} {extra : List String} {op : Opcode}
      (hs : l.statement = .instruction mnemonic operand extra)
      (hm : Opcode.ofMnemonic? mnemonic = some op) (ht : op.takesOperand = false) :
      Assembles lines l address ⟨address, Word.join op.code 0, op, 0, l, none⟩
  | operand {mnemonic x : String} {extra : List String} {op : Opcode} {n : Nat}
      {res : Resolution} (hs : l.statement = .instruction mnemonic (some x) extra)
      (hm : Opcode.ofMnemonic? mnemonic = some op) (ht : op.takesOperand = true)
      (hx : meaning lines x = .ok (n, res)) (hr : Word.inRange (Word.join op.code n) = true) :
      Assembles lines l address ⟨address, Word.join op.code n, op, n, l, some res⟩

/-- An instruction line and its instruction, if there is nothing to warn of. -/
inductive Encodes (lines : List Line) (l : Line) (address : Nat) : Instruction → Prop
  | bare {mnemonic : String} {operand : Option String} {extra : List String} {op : Opcode}
      (hs : l.statement = .instruction mnemonic operand extra)
      (hm : Opcode.ofMnemonic? mnemonic = some op) (ht : op.takesOperand = false) :
      Encodes lines l address ⟨address, Word.join op.code 0, op, 0, l, none⟩
  | operand {mnemonic x : String} {extra : List String} {op : Opcode} {n : Nat}
      {res : Resolution} (hs : l.statement = .instruction mnemonic (some x) extra)
      (hm : Opcode.ofMnemonic? mnemonic = some op) (ht : op.takesOperand = true)
      (hx : Means lines x n res) (hn : n ≤ 99) :
      Encodes lines l address ⟨address, Word.join op.code n, op, n, l, some res⟩

theorem not_refused {found : List Finding} {f : Finding} (hf : f.isError = true)
    (h : ∀ g ∈ (Encoding.refused found f).findings, g.isError = false) : False := by
  rw [h f (List.mem_append_right _ List.mem_cons_self)] at hf
  cases hf

/-- The warnings about an operand that stands for `n`. -/
def cautions (l : Line) (x : String) (n : Nat) (res : Resolution) : List Finding :=
  (if res = .undefined then [l.warn s!"undefined symbol '{x}', using operand 0"] else []) ++
    if Word.greatestOperand < n then
      [l.warn s!"operand {n} does not fit in two digits; word overflows"]
    else []

theorem of_cautions_quiet {l : Line} {x : String} {n : Nat} {res : Resolution}
    (h : ∀ f ∈ cautions l x n res, f.warning? = none) : res ≠ .undefined ∧ n ≤ 99 := by
  unfold cautions at h
  constructor
  · intro hu
    rw [if_pos hu] at h
    cases h _ (List.mem_append_left _ List.mem_cons_self)
  · refine Nat.le_of_not_lt fun hn => ?_
    have hwide : Word.greatestOperand < n := by
      show (99 : Int) < n
      omega
    rw [if_pos hwide] at h
    cases h _ (List.mem_append_right _ List.mem_cons_self)

/-- An operation whose operand draws no error is encoded, with the warnings that are due. -/
theorem encodeOperand_of_quiet {lines : List Line} {t : Tables} (h : t.Of lines) {strict : Bool}
    {l : Line} {address : Nat} {x : String} {op : Opcode} {found : List Finding}
    (hf : ∀ f ∈ (encodeOperand t strict l address op x found).findings, f.isError = false) :
    ∃ n res, meaning lines x = .ok (n, res) ∧ Word.inRange (Word.join op.code n) = true ∧
      encodeOperand t strict l address op x found = ⟨found ++ cautions l x n res,
        some ⟨address, Word.join op.code n, op, n, l, some res⟩⟩ := by
  unfold encodeOperand at hf ⊢
  rw [h.resolve_eq] at hf ⊢
  cases hr : meaning lines x with
  | error e =>
    rw [hr] at hf
    exact (not_refused rfl hf).elim
  | ok r =>
    obtain ⟨n, res⟩ := r
    rw [hr] at hf
    dsimp only at hf ⊢
    cases hstrict : (decide (res = .undefined) && strict) with
    | true =>
      rw [hstrict] at hf
      exact (not_refused rfl hf).elim
    | false =>
      rw [hstrict, if_neg Bool.false_ne_true] at hf
      rw [if_neg Bool.false_ne_true]
      cases hin : Word.inRange (Word.join op.code n) with
      | false =>
        rw [hin] at hf
        cases hwrite : Text.writeNumeral (Word.join op.code n) with
        | error e => rw [hwrite] at hf; exact (not_refused rfl hf).elim
        | ok s => rw [hwrite] at hf; exact (not_refused rfl hf).elim
      | true =>
        refine ⟨n, res, rfl, hin, ?_⟩
        rw [Bool.not_true, if_neg Bool.false_ne_true]
        unfold cautions
        by_cases hu : res = .undefined <;> by_cases hn : Word.greatestOperand < (n : Int) <;>
          simp [hu, hn]

/-- The warning about the tokens behind an operand. -/
def ignoring (l : Line) (extra : List String) : List Finding :=
  let ignored := " ".intercalate extra
  if extra.isEmpty then [] else [l.warn s!"extra tokens after operand ignored: {ignored}"]

/-- What the second pass makes of an instruction line that draws no error: its instruction, and the
    warnings that are due. -/
inductive Yields (lines : List Line) (l : Line) (address : Nat) : Encoding → Prop
  | bare {mnemonic : String} {operand : Option String} {extra : List String} {op : Opcode}
      (hs : l.statement = .instruction mnemonic operand extra)
      (hm : Opcode.ofMnemonic? mnemonic = some op) (ht : op.takesOperand = false) :
      Yields lines l address
        ⟨ignoring l extra, some ⟨address, Word.join op.code 0, op, 0, l, none⟩⟩
  | operand {mnemonic x : String} {extra : List String} {op : Opcode} {n : Nat}
      {res : Resolution} (hs : l.statement = .instruction mnemonic (some x) extra)
      (hm : Opcode.ofMnemonic? mnemonic = some op) (ht : op.takesOperand = true)
      (hx : meaning lines x = .ok (n, res)) (hr : Word.inRange (Word.join op.code n) = true) :
      Yields lines l address ⟨ignoring l extra ++ cautions l x n res,
        some ⟨address, Word.join op.code n, op, n, l, some res⟩⟩

theorem yields_of_quiet {lines : List Line} {t : Tables} (h : t.Of lines) {strict : Bool}
    {l : Line} {address : Nat} (hc : l.isCode = true)
    (hf : ∀ f ∈ (encode t strict l address).findings, f.isError = false) :
    Yields lines l address (encode t strict l address) := by
  unfold Line.isCode at hc
  split at hc
  · rename_i mnemonic operand extra hs
    unfold encode at hf ⊢
    rw [hs] at hf ⊢
    dsimp only at hf ⊢
    cases hm : Opcode.ofMnemonic? mnemonic with
    | none =>
      rw [hm] at hf
      exact (not_refused rfl hf).elim
    | some op =>
      rw [hm] at hf
      dsimp only at hf ⊢
      cases ht : op.takesOperand with
      | false => exact .bare hs hm ht
      | true =>
        rw [ht, Bool.not_true, if_neg Bool.false_ne_true] at hf
        rw [Bool.not_true, if_neg Bool.false_ne_true]
        cases operand with
        | none => exact (not_refused rfl hf).elim
        | some x =>
          obtain ⟨n, res, hx, hr, henc⟩ := encodeOperand_of_quiet h hf
          dsimp only
          rw [henc]
          exact .operand hs hm ht hx hr
  · cases hc

/-- A line that draws no error has its instruction. -/
theorem encode_of_quiet {lines : List Line} {t : Tables} (h : t.Of lines) {strict : Bool}
    {l : Line} {address : Nat} (hc : l.isCode = true)
    (hf : ∀ f ∈ (encode t strict l address).findings, f.isError = false) :
    ∃ i, (encode t strict l address).instruction = some i ∧ Assembles lines l address i ∧
      ((∀ f ∈ (encode t strict l address).findings, f.warning? = none) →
        Encodes lines l address i) := by
  have hy := yields_of_quiet h hc hf
  generalize encode t strict l address = e at hy ⊢
  cases hy with
  | bare hs hm ht => exact ⟨_, rfl, .bare hs hm ht, fun _ => .bare hs hm ht⟩
  | operand hs hm ht hx hr =>
    refine ⟨_, rfl, .operand hs hm ht hx hr, fun hw => ?_⟩
    obtain ⟨hu, hn⟩ := of_cautions_quiet fun f hm => hw f (List.mem_append_right _ hm)
    exact .operand hs hm ht (means_of_meaning hx hu) hn

/-- The instruction lines are encoded one by one, from an address on. -/
theorem encodings_of_quiet {lines : List Line} {t : Tables} (h : t.Of lines) {strict : Bool}
    (ls : List Line) {start : Nat} {encodings : List Encoding} (hc : ∀ l ∈ ls, l.isCode = true)
    (he : encodings = (ls.zipIdx start).map fun (l, address) => encode t strict l address)
    (hf : ∀ f ∈ encodings.flatMap Encoding.findings, f.isError = false) :
    (encodings.filterMap Encoding.instruction).length = ls.length ∧
      ∀ i (h₁ : i < (encodings.filterMap Encoding.instruction).length) (h₂ : i < ls.length),
        Assembles lines ls[i] (start + i) (encodings.filterMap Encoding.instruction)[i] ∧
        ((∀ f ∈ encodings.flatMap Encoding.findings, f.warning? = none) →
          Encodes lines ls[i] (start + i) (encodings.filterMap Encoding.instruction)[i]) := by
  induction ls generalizing start encodings with
  | nil =>
    subst he
    exact ⟨rfl, nofun⟩
  | cons l ls ih =>
    rw [List.zipIdx_cons, List.map_cons] at he
    subst he
    rw [List.flatMap_cons] at hf ⊢
    obtain ⟨instr, hi, hl, hquiet⟩ := encode_of_quiet h (hc l List.mem_cons_self)
      (fun f hm => hf f (List.mem_append_left _ hm))
    obtain ⟨hlen, hrest⟩ := ih (fun d hd => hc d (List.mem_cons_of_mem l hd)) rfl
      (fun f hm => hf f (List.mem_append_right _ hm))
    rw [List.filterMap_cons_some hi]
    refine ⟨congrArg Nat.succ hlen, fun i h₁ h₂ => ?_⟩
    cases i with
    | zero => exact ⟨hl, fun hw => hquiet fun f hm => hw f (List.mem_append_left _ hm)⟩
    | succ i =>
      rw [show start + (i + 1) = start + 1 + i by omega]
      obtain ⟨ha, hq⟩ := hrest i (Nat.lt_of_succ_lt_succ h₁) (Nat.lt_of_succ_lt_succ h₂)
      exact ⟨ha, fun hw => hq fun f hm => hw f (List.mem_append_right _ hm)⟩

/-! ## Programs -/

/-- What a program without warnings is made of: the variables, the labels, and the instructions
    one by one. -/
structure Makes (lines : List Line) (p : Program) : Prop where
  tables : Tables.Of lines ⟨p.symbols, p.labels⟩
  length : p.instructions.length = (Source.code lines).length
  encodes : ∀ i (h₁ : i < p.instructions.length) (h₂ : i < (Source.code lines).length),
    Encodes lines (Source.code lines)[i] (Source.origin lines + i) p.instructions[i]

/-- What any program is made of. -/
structure Compiled (lines : List Line) (p : Program) : Prop where
  tables : Tables.Of lines ⟨p.symbols, p.labels⟩
  labels : p.labels.map Label.name = defined lines
  length : p.instructions.length = (code lines).length
  assembles : ∀ i (h₁ : i < p.instructions.length) (h₂ : i < (code lines).length),
    Assembles lines (code lines)[i] (origin lines + i) p.instructions[i]

/-- What comes up at some lines in both passes. -/
def findings (strict : Bool) (lines : List Line) : List Finding :=
  (tabulate lines).2 ++ (encodeAll (tabulate lines).1 strict lines).flatMap Encoding.findings

theorem outcome_of_error {strict : Bool} {filename : String} {lines : List Line}
    {e : AssemblyError} (h : (Review.ofFindings (findings strict lines)).error? = some e) :
    (ofLines strict filename lines).outcome = .error e := by
  unfold ofLines
  unfold findings at h
  dsimp only
  rw [h]

theorem outcome_of_no_error {strict : Bool} {filename : String} {lines : List Line}
    (h : (Review.ofFindings (findings strict lines)).error? = none) :
    (ofLines strict filename lines).outcome = .ok ⟨(tabulate lines).1.symbols,
      (tabulate lines).1.labels,
      (encodeAll (tabulate lines).1 strict lines).filterMap Encoding.instruction,
      (findings strict lines).filterMap Finding.warning?, filename⟩ := by
  obtain ⟨-, hw⟩ := Review.of_error?_eq_none h
  rw [← hw]
  unfold ofLines
  unfold findings at h ⊢
  dsimp only
  rw [h]

/-- Where there is a program, nothing is wrong with the lines, and it has what both passes have
    found. -/
theorem of_ofLines {strict : Bool} {filename : String} {lines : List Line} {p : Program}
    (h : (ofLines strict filename lines).outcome = .ok p) :
    (∀ f ∈ findings strict lines, f.isError = false) ∧
      p = ⟨(tabulate lines).1.symbols, (tabulate lines).1.labels,
        (encodeAll (tabulate lines).1 strict lines).filterMap Encoding.instruction,
        (findings strict lines).filterMap Finding.warning?, filename⟩ := by
  cases he : (Review.ofFindings (findings strict lines)).error? with
  | some e =>
    rw [outcome_of_error he] at h
    cases h
  | none =>
    rw [outcome_of_no_error he] at h
    exact ⟨(Review.of_error?_eq_none he).1, (Except.ok.inj h).symm⟩

/-- A program that is assembled is made of what its lines say. -/
theorem compiled_of_ofLines {strict : Bool} {filename : String} {lines : List Line} {p : Program}
    (h : (ofLines strict filename lines).outcome = .ok p) :
    Compiled lines p ∧ (p.warnings = [] → Makes lines p) := by
  obtain ⟨hf, rfl⟩ := of_ofLines h
  have ht := tabulate_of fun f hm => hf f (List.mem_append_left _ hm)
  obtain ⟨hlen, henc⟩ := encodings_of_quiet ht (code lines)
    (fun l hl => (List.mem_filter.1 hl).2) rfl (fun f hm => hf f (List.mem_append_right _ hm))
  refine ⟨⟨ht, map_name_labels lines, hlen, fun i h₁ h₂ => ?_⟩, fun hw =>
    ⟨ht, hlen, fun i h₁ h₂ => ?_⟩⟩
  · rw [← ht.symbols.length]
    exact (henc i h₁ h₂).1
  · rw [← ht.symbols.length]
    have hquiet := List.filterMap_eq_nil_iff.1 hw
    exact (henc i h₁ h₂).2 fun f hm => hquiet f (List.mem_append_right _ hm)

/-! ## Sources -/

theorem refusals_map_ok (lines : List Line) : refusals (lines.map .ok) = [] := by
  induction lines with
  | nil => rfl
  | cons l ls ih => exact ih

theorem accepted_map_ok (lines : List Line) : accepted (lines.map .ok) = lines := by
  induction lines with
  | nil => rfl
  | cons l ls ih => exact congrArg (l :: ·) ih

theorem eq_map_accepted {results : List (Except LineError Line)} (h : refusals results = []) :
    results = (accepted results).map .ok := by
  induction results with
  | nil => rfl
  | cons r rs ih =>
    cases r with
    | ok l => exact congrArg (.ok l :: ·) (ih h)
    | error e => cases e <;> cases h

/-- Every refusal is an error. -/
theorem failures_refusals_eq_nil {results : List (Except LineError Line)}
    (h : (refusals results).filterMap Finding.failure? = []) : refusals results = [] := by
  induction results with
  | nil => rfl
  | cons r rs ih =>
    cases r with
    | ok l => exact ih h
    | error e => cases e <;> cases h

theorem readSource_eq_ok_iff {filename source : String} {lines : List Line} :
    readSource filename source = .ok lines ↔ readLines filename source = lines.map .ok := by
  unfold readSource
  dsimp only
  constructor
  · intro h
    split at h
    · cases h
    · rename_i he
      obtain rfl := Except.ok.inj h
      exact eq_map_accepted (failures_refusals_eq_nil (Review.error?_eq_none_iff.1 he))
  · intro h
    rw [h, refusals_map_ok, accepted_map_ok]
    rfl

theorem outcome_of_readSource {a : Assembler} {filename source : String} {lines : List Line}
    (h : readSource filename source = .ok lines) :
    (a.assemble filename source).2.outcome = (ofLines a.strict filename lines).outcome := by
  unfold Assembler.assemble
  rw [h]

/-- A source with a line that cannot be read is not assembled. -/
theorem readSource_of_outcome {a : Assembler} {filename source : String} {p : Program}
    (h : (a.assemble filename source).2.outcome = .ok p) :
    ∃ lines, readSource filename source = .ok lines := by
  cases hr : readSource filename source with
  | ok lines => exact ⟨lines, rfl⟩
  | error e =>
    unfold Assembler.assemble at h
    rw [hr] at h
    cases h

/-- A source is assembled only if all its lines can be read, and then its program is made of what
    they say. -/
theorem compiled_of_assemble {a : Assembler} {filename source : String} {p : Program}
    (h : (a.assemble filename source).2.outcome = .ok p) :
    ∃ lines, readLines filename source = lines.map .ok ∧ Compiled lines p ∧
      (p.warnings = [] → Makes lines p) := by
  obtain ⟨lines, hr⟩ := readSource_of_outcome h
  rw [outcome_of_readSource hr] at h
  exact ⟨lines, readSource_eq_ok_iff.1 hr, compiled_of_ofLines h⟩

theorem makes_of_assemble {a : Assembler} {filename source : String} {p : Program}
    (h : (a.assemble filename source).2.outcome = .ok p) (hw : p.warnings = []) :
    Makes (accepted (readLines filename source)) p := by
  obtain ⟨lines, hr, -, hm⟩ := compiled_of_assemble h
  rw [hr, accepted_map_ok]
  exact hm hw

end Assembly

end DecimalMachine
