import DecimalMachine.Proofs.Encodings
/-
  An assembler that is used again and again: what it shows behind the last of many sources. A
  source whose lines can all be read takes the place of all that came before it, whether it
  assembles or not. A source with a line that cannot be read leaves everything as it was, so behind
  its failure the assembler still shows the program and the warnings of an earlier source, and still
  writes that program out.
-/
namespace DecimalMachine

/-- What an assembler shows: the last program, the last warnings, and what it gives out and writes
    to files. -/
structure Shown where
  program : Option Program
  warnings : List String
  words : Except Diagnostic (List String)
  origin : Except Diagnostic Nat
  symbols : Except Diagnostic (List (String × Nat))
  labels : Except Diagnostic (List (String × Nat))
  tables : Except Diagnostic String
  listing : Except Diagnostic String
  image : Except Diagnostic (Except DigitLimit String)
  listingFile : Except Diagnostic String
  symbolFile : Except Diagnostic String

namespace Assembler

open Assembly

/-- Something made of the last program. -/
def emit {α : Type} (a : Assembler) (f : Program → α) : Except Diagnostic α := a.current.map f

def shown (a : Assembler) : Shown where
  program := a.program
  warnings := a.warnings
  words := a.emit fun p => p.toImage.words
  origin := a.emit Program.origin
  symbols := a.emit fun p => p.symbols.map fun s => (s.name, s.address)
  labels := a.emit fun p => p.labels.map fun l => (l.name, l.address)
  tables := a.emit Program.tables
  listing := a.emit Program.listing
  image := a.emit fun p => p.toImage.writeText
  listingFile := a.emit Program.listingFile
  symbolFile := a.emit Program.symbolFile

theorem emit_of_none {a : Assembler} (h : a.program = none) {α : Type} (f : Program → α) :
    a.emit f = .error (.ofComplaint .noProgram) := by
  unfold emit current
  rw [h]
  rfl

/-- Everything that is shown comes from the last program and the last warnings. -/
theorem shown_eq_iff {a b : Assembler} :
    a.shown = b.shown ↔ a.program = b.program ∧ a.warnings = b.warnings := by
  constructor
  · intro h
    exact ⟨congrArg Shown.program h, congrArg Shown.warnings h⟩
  · rintro ⟨hp, hw⟩
    have hemit : ∀ {α : Type} (f : Program → α), a.emit f = b.emit f := by
      intro α f
      unfold emit current
      rw [hp]
    simp only [shown, hp, hw, hemit]

/-! ## One source -/

/-- Every line of the source can be read. -/
def Readable (filename source : String) : Prop :=
  ∀ r ∈ Source.readLines filename source, ∃ l, r = .ok l

theorem readable_iff {filename source : String} :
    Readable filename source ↔ ∃ lines, readSource filename source = .ok lines := by
  simp only [readSource_eq_ok_iff]
  constructor
  · intro h
    refine ⟨accepted (Source.readLines filename source), ?_⟩
    revert h
    unfold Readable
    induction Source.readLines filename source with
    | nil => exact fun _ => rfl
    | cons r rs ih =>
      intro h
      obtain ⟨l, rfl⟩ := h r List.mem_cons_self
      rw [accepted, List.map_cons, ← ih fun s hs => h s (List.mem_cons_of_mem _ hs)]
  · rintro ⟨lines, h⟩ r hr
    rw [h] at hr
    obtain ⟨l, -, rfl⟩ := List.mem_map.1 hr
    exact ⟨l, rfl⟩

theorem assemble_of_readable {filename source : String} (h : Readable filename source) :
    ∃ lines, ∀ a : Assembler, a.assemble filename source =
      (⟨a.strict, (ofLines a.strict filename lines).outcome.toOption,
        (ofLines a.strict filename lines).warnings⟩, ofLines a.strict filename lines) := by
  obtain ⟨lines, hr⟩ := readable_iff.1 h
  refine ⟨lines, fun a => ?_⟩
  unfold assemble
  rw [hr]

theorem assemble_of_not_readable {filename source : String} (h : ¬ Readable filename source) :
    ∃ err, ∀ a : Assembler, a.assemble filename source = (a, ⟨#[], [], .error err⟩) := by
  cases hr : readSource filename source with
  | ok lines => exact absurd (readable_iff.2 ⟨lines, hr⟩) h
  | error err =>
    refine ⟨err, fun a => ?_⟩
    unfold assemble
    rw [hr]

theorem strict_assemble (a : Assembler) (filename source : String) :
    (a.assemble filename source).1.strict = a.strict := by
  unfold assemble
  split <;> rfl

/-- What is answered does not depend on what has been assembled before. -/
theorem answer_congr {a b : Assembler} (h : a.strict = b.strict) (filename source : String) :
    (a.assemble filename source).2 = (b.assemble filename source).2 := by
  unfold assemble
  split
  · rfl
  · dsimp only
    rw [h]

/-- Behind a source that can be read nothing is left of what has been assembled before. -/
theorem state_congr {a b : Assembler} (h : a.strict = b.strict) {filename source : String}
    (hr : Readable filename source) :
    (a.assemble filename source).1 = (b.assemble filename source).1 := by
  obtain ⟨lines, hlines⟩ := assemble_of_readable hr
  rw [hlines a, hlines b, h]

/-- A source that can be read and does not assemble leaves no program. -/
theorem program_of_error {a : Assembler} {filename source : String} (hr : Readable filename source)
    {err : AssemblyError} (h : (a.assemble filename source).2.outcome = .error err) :
    (a.assemble filename source).1.program = none := by
  obtain ⟨lines, hlines⟩ := assemble_of_readable hr
  rw [hlines a] at h ⊢
  exact congrArg Except.toOption h

/-! ## Histories -/

/-- The assembler behind some sources, each with the name of its file. -/
def assembleAll (a : Assembler) (history : List (String × String)) : Assembler :=
  history.foldl (fun a c => (a.assemble c.1 c.2).1) a

theorem assembleAll_concat (a : Assembler) (history : List (String × String))
    (c : String × String) :
    a.assembleAll (history ++ [c]) = ((a.assembleAll history).assemble c.1 c.2).1 :=
  List.foldl_append ..

theorem strict_assembleAll (a : Assembler) (history : List (String × String)) :
    (a.assembleAll history).strict = a.strict := by
  induction history generalizing a with
  | nil => rfl
  | cons c history ih => exact (ih _).trans (strict_assemble a c.1 c.2)

/-- The last of the sources that could be read, if there is one. -/
inductive LastRead (history : List (String × String)) : Option (String × String) → Prop
  | none (h : ∀ c ∈ history, ¬ Readable c.1 c.2) : LastRead history none
  | some {before later : List (String × String)} {c : String × String}
      (h : history = before ++ c :: later) (hc : Readable c.1 c.2)
      (hl : ∀ d ∈ later, ¬ Readable d.1 d.2) : LastRead history (some c)

theorem LastRead.concat_of_not_readable {history : List (String × String)}
    {last : Option (String × String)} (h : LastRead history last) {c : String × String}
    (hc : ¬ Readable c.1 c.2) : LastRead (history ++ [c]) last := by
  have hmore : ∀ {ds : List (String × String)}, (∀ d ∈ ds, ¬ Readable d.1 d.2) →
      ∀ d ∈ ds ++ [c], ¬ Readable d.1 d.2 := by
    intro ds hds d hd
    rcases List.mem_append.1 hd with hd | hd
    · exact hds d hd
    · rw [List.mem_singleton.1 hd]
      exact hc
  cases h with
  | none h => exact .none (hmore h)
  | some h hr hl => exact .some (by rw [h, List.append_assoc, List.cons_append]) hr (hmore hl)

/-- An assembler is as a new one is behind the last source that could be read. -/
theorem assembleAll_eq (strict : Bool) (history : List (String × String)) :
    ∃ last, LastRead history last ∧ (new strict).assembleAll history =
      last.elim (new strict) fun c => ((new strict).assemble c.1 c.2).1 := by
  induction history using List.reverseRecOn with
  | nil => exact ⟨none, .none nofun, rfl⟩
  | append_singleton history c ih =>
    obtain ⟨last, hlast, heq⟩ := ih
    rw [assembleAll_concat]
    by_cases hc : Readable c.1 c.2
    · exact ⟨some c, .some rfl hc nofun, state_congr (strict_assembleAll _ history) hc⟩
    · obtain ⟨err, herr⟩ := assemble_of_not_readable hc
      rw [herr]
      exact ⟨last, hlast.concat_of_not_readable hc, heq⟩

/-- Behind any sources, an assembler answers to one more as a new one does, and it shows what a new
    one shows exactly if all lines of that source can be read or there was nothing to show. If they
    can be read and the source does not assemble, there is no program and nothing to give out. If
    they cannot, everything is left as the last source has left it whose lines could be read. -/
theorem assembler_history (strict : Bool) (history : List (String × String))
    (filename source : String) :
    let fresh := new strict
    let a := fresh.assembleAll history
    let behind := (a.assemble filename source).1
    (a.assemble filename source).2 = (fresh.assemble filename source).2 ∧
    (behind.shown = (fresh.assemble filename source).1.shown ↔
      Readable filename source ∨ a.program = none ∧ a.warnings = []) ∧
    (∀ err, (a.assemble filename source).2.outcome = .error err →
      (behind.program = none ↔ Readable filename source ∨ a.program = none) ∧
      (behind.program = none → ∀ {α : Type} (f : Program → α),
        behind.emit f = .error (.ofComplaint .noProgram)) ∧
      (¬ Readable filename source → behind.shown = a.shown)) ∧
    ∃ last, LastRead history last ∧
      a.shown = (last.elim fresh fun c => (fresh.assemble c.1 c.2).1).shown := by
  intro fresh a behind
  have hstrict : a.strict = fresh.strict := strict_assembleAll fresh history
  have hlast : ∃ last, LastRead history last ∧
      a.shown = (last.elim fresh fun c => (fresh.assemble c.1 c.2).1).shown := by
    obtain ⟨last, hlast, heq⟩ := assembleAll_eq strict history
    exact ⟨last, hlast, congrArg shown heq⟩
  refine ⟨answer_congr hstrict filename source, ?_, fun err herr => ⟨?_, fun h => ?_, ?_⟩, hlast⟩
  · by_cases hr : Readable filename source
    · exact iff_of_true (congrArg shown (state_congr hstrict hr)) (.inl hr)
    · obtain ⟨err, hleft⟩ := assemble_of_not_readable hr
      rw [or_iff_right hr, show behind = a from congrArg Prod.fst (hleft a), hleft fresh]
      exact shown_eq_iff
  · by_cases hr : Readable filename source
    · exact iff_of_true (program_of_error hr herr) (.inl hr)
    · obtain ⟨err, hleft⟩ := assemble_of_not_readable hr
      rw [or_iff_right hr, show behind = a from congrArg Prod.fst (hleft a)]
  · exact fun f => emit_of_none h f
  · intro hr
    obtain ⟨err, hleft⟩ := assemble_of_not_readable hr
    exact congrArg (fun r => r.1.shown) (hleft a)

/-- A source that does not assemble, behind one that does. -/
theorem assembler_history_unknown :
    let a := (new false).assembleAll [("<input>", "x = 7\nHALT\n")]
    let behind := (a.assemble "<input>" "NOPE x\n").1
    a.program.isSome = true ∧ behind.program = none ∧
      behind.emit Program.listing = .error (.ofComplaint .noProgram) ∧
      behind.shown = ((new false).assemble "<input>" "NOPE x\n").1.shown := by
  intro a behind
  obtain ⟨-, hshown, herror, -⟩ :=
    assembler_history false [("<input>", "x = 7\nHALT\n")] "<input>" "NOPE x\n"
  have hread : Readable "<input>" "NOPE x\n" := by
    have hok : (readSource "<input>" "NOPE x\n").toBool = true := by decide +kernel
    refine readable_iff.2 ?_
    cases hr : readSource "<input>" "NOPE x\n" with
    | ok lines => exact ⟨lines, rfl⟩
    | error err =>
      rw [hr] at hok
      cases hok
  have hfail : (a.assemble "<input>" "NOPE x\n").2.outcome.toBool = false := by decide +kernel
  obtain ⟨err, herr⟩ : ∃ err, (a.assemble "<input>" "NOPE x\n").2.outcome = .error err := by
    cases ho : (a.assemble "<input>" "NOPE x\n").2.outcome with
    | ok p =>
      rw [ho] at hfail
      cases hfail
    | error err => exact ⟨err, rfl⟩
  obtain ⟨hnone, hemit, -⟩ := herror err herr
  have hprogram := hnone.2 (.inl hread)
  exact ⟨by decide +kernel, hprogram, hemit hprogram _, hshown.2 (.inl hread)⟩

/-- A source with a line that cannot be read, behind one that assembles: the program is still
    there. -/
theorem assembler_history_nameless :
    let a := (new false).assembleAll [("<input>", "x = 7\nHALT\n")]
    let behind := (a.assemble "<input>" ":\n").1
    (a.assemble "<input>" ":\n").2.outcome.toBool = false ∧
      ((new false).assemble "<input>" ":\n").1.program.isSome = false ∧
      behind.program.isSome = true ∧
      (behind.emit fun p => p.toImage.words).toOption = some ["0007", "4300"] := by
  decide +kernel

end Assembler

end DecimalMachine
