import DecimalMachine.Assembly
/-
  Findings: what the findings of an assembly amount to. There is no error exactly when none of them
  is one (`error?_eq_none_iff`). Diagnostics are collected in the order of the findings: the error
  reports all of them, or the first hundred if there are as many (`error?_eq_refusal`).
-/
namespace DecimalMachine

/-! ## Kinds of findings -/

namespace Finding

/-- The finding leaves no program. -/
def isError : Finding → Bool
  | .error _ | .number _ => true
  | _ => false

/-- The error that the finding is. -/
def failure? : Finding → Option AssemblyError
  | .error d => some (.diagnostic d)
  | .number e => some (.number e)
  | _ => none

theorem isError_eq (f : Finding) : f.isError = f.failure?.isSome := by cases f <;> rfl

/-- The text of a warning. -/
def warning? : Finding → Option String
  | .warning text => some text
  | _ => none

end Finding

namespace Assembly

namespace Review

/-! ## Without errors -/

/-- Nothing has gone wrong so far. -/
def Sound (r : Review) : Prop := r.stopped = none ∧ r.collector.errors = #[]

theorem sound_of_error? {r : Review} (h : r.error? = none) : r.Sound := by
  unfold error? at h
  split at h
  · cases h
  · rename_i hs
    refine ⟨hs, ?_⟩
    split at h
    · cases h
    · rename_i he
      have hsize : r.collector.errors.size = 0 := by simpa [Collector.hasErrors] using he
      exact Array.eq_empty_of_size_eq_zero hsize

/-- What goes wrong stays wrong. -/
theorem sound_of_enter {r : Review} {f : Finding} (h : (r.enter f).Sound) :
    r.Sound ∧ f.isError = false := by
  unfold enter at h
  split at h
  · rename_i hs
    rw [h.1] at hs
    cases hs
  · rename_i hs
    have hs : r.stopped = none := by simpa using hs
    cases f with
    | remark text => exact ⟨⟨hs, h.2⟩, rfl⟩
    | warning text => exact ⟨⟨hs, h.2⟩, rfl⟩
    | number e => cases h.1
    | error d =>
      have hp : r.collector.errors.push d = #[] := h.2
      exact absurd (congrArg Array.size hp) (by simp)

theorem warnings_enter {r : Review} {f : Finding} (h : (r.enter f).Sound) :
    (r.enter f).collector.warnings.toList =
      r.collector.warnings.toList ++ f.warning?.toList := by
  obtain ⟨hr, hf⟩ := sound_of_enter h
  unfold enter
  rw [hr.1, Option.isSome_none, if_neg Bool.false_ne_true]
  cases f with
  | remark text => exact (List.append_nil _).symm
  | warning text => exact Array.toList_push
  | number e => cases hf
  | error d => cases hf

/-- Where nothing has gone wrong, no finding is an error, and the warnings are those found. -/
theorem foldl_enter {fs : List Finding} {r : Review} (h : (fs.foldl enter r).Sound) :
    r.Sound ∧ (∀ f ∈ fs, f.isError = false) ∧
      (fs.foldl enter r).collector.warnings.toList =
        r.collector.warnings.toList ++ fs.filterMap Finding.warning? := by
  induction fs generalizing r with
  | nil => exact ⟨h, nofun, (List.append_nil _).symm⟩
  | cons f fs ih =>
    obtain ⟨hf, hfs, hw⟩ := ih h
    obtain ⟨hr, hn⟩ := sound_of_enter hf
    refine ⟨hr, ?_, ?_⟩
    · intro g hg
      rcases List.mem_cons.1 hg with rfl | hg
      · exact hn
      · exact hfs g hg
    · rw [List.foldl_cons, hw, warnings_enter hf, List.append_assoc, List.filterMap_cons]
      cases f.warning? <;> rfl

theorem of_error?_eq_none {fs : List Finding} (h : (ofFindings fs).error? = none) :
    (∀ f ∈ fs, f.isError = false) ∧
      (ofFindings fs).collector.warnings.toList = fs.filterMap Finding.warning? := by
  obtain ⟨-, hf, hw⟩ := foldl_enter (sound_of_error? h)
  exact ⟨hf, hw⟩

/-! ## With errors -/

/-- The report of diagnostics, with the warnings behind them. -/
def report (ds : List Diagnostic) (warnings : Array String) : String :=
  (Collector.mk errorLimit ds.toArray warnings).report

/-- The error that reports diagnostics: all of them, or the first hundred if there are as many. -/
def refusal (ds : List Diagnostic) (warnings : Array String) : AssemblyError :=
  .diagnostic (.ofComplaint
    (if ds.length < 100 then .failed ds.length (report ds warnings)
     else .tooMany s!"Too many errors (100), stopping\n\n{report (ds.take 100) warnings}"))

/-- The review has taken in diagnostics. As long as they are fewer than the limit it goes on. -/
inductive Collected (r : Review) (ds : List Diagnostic) : Prop
  | going {warnings : Array String} (hn : ds.length < 100)
      (hc : r.collector = ⟨errorLimit, ds.toArray, warnings⟩) (hs : r.stopped = none)
  | full {warnings : Array String} (hn : 100 ≤ ds.length)
      (hs : r.stopped = some (refusal ds warnings))

theorem refusal_append {ds : List Diagnostic} (hn : 100 ≤ ds.length) (new : List Diagnostic)
    (warnings : Array String) : refusal (ds ++ new) warnings = refusal ds warnings := by
  unfold refusal
  have hlong : ¬ (ds ++ new).length < 100 := by simp; omega
  rw [if_neg hlong, if_neg (by omega), List.take_append_of_le_length hn]

/-- The collector is full with the hundredth diagnostic, and then it names those it has. -/
theorem refusal_of_isFull {ds : List Diagnostic} {warnings : Array String} (hn : ds.length = 100) :
    refusal ds warnings = .diagnostic (Collector.mk errorLimit ds.toArray warnings).overflow := by
  unfold refusal
  rw [if_neg (by omega), List.take_of_length_le (by omega)]
  rfl

/-- A review that has been stopped takes nothing in. -/
theorem enter_of_stopped {r : Review} {e : AssemblyError} (h : r.stopped = some e) (f : Finding) :
    r.enter f = r := by
  unfold enter
  rw [h]
  rfl

theorem Collected.enter {r : Review} {ds : List Diagnostic} (h : r.Collected ds) {f : Finding}
    {d : Option Diagnostic} (hf : f.failure? = d.map .diagnostic) :
    (r.enter f).Collected (ds ++ d.toList) := by
  cases h with
  | @full warnings hn hs =>
    rw [enter_of_stopped hs]
    exact .full (by simp; omega) (hs.trans (by rw [refusal_append hn]))
  | @going warnings hn hc hs =>
    unfold Review.enter
    rw [hs, Option.isSome_none, if_neg Bool.false_ne_true]
    cases f with
    | remark text =>
      obtain rfl : d = none := by cases d <;> trivial
      rw [Option.toList_none, List.append_nil]
      exact .going hn hc hs
    | warning text =>
      obtain rfl : d = none := by cases d <;> trivial
      rw [Option.toList_none, List.append_nil]
      exact .going hn (congrArg (Collector.warn · text) hc) hs
    | number e => cases d <;> cases hf
    | error d' =>
      obtain rfl : d = some d' := by
        cases d with
        | none => cases hf
        | some d => cases hf; rfl
      have hadd : r.collector.add d' = ⟨errorLimit, (ds ++ [d']).toArray, warnings⟩ := by
        rw [hc]
        simp [Collector.add]
      dsimp only
      rw [hadd, Option.toList_some]
      by_cases hfull : ds.length + 1 = 100
      · have hlen : (ds ++ [d']).length = 100 := by simpa using hfull
        have hisFull : (Collector.mk errorLimit (ds ++ [d']).toArray warnings).isFull = true := by
          simp [Collector.isFull, errorLimit]; omega
        refine @Collected.full _ _ warnings (by omega) ?_
        rw [if_pos hisFull, refusal_of_isFull hlen]
      · have hisFull : (Collector.mk errorLimit (ds ++ [d']).toArray warnings).isFull = false := by
          simp [Collector.isFull, errorLimit]; omega
        refine .going (by simp; omega) rfl ?_
        rw [hisFull, if_neg Bool.false_ne_true]

/-- What is no error adds nothing to the diagnostics. -/
theorem Collected.enter_quiet {r : Review} {ds : List Diagnostic} (h : r.Collected ds) {f : Finding}
    (hf : f.failure? = none) : (r.enter f).Collected ds := by
  have hkept := h.enter (d := none) hf
  rwa [Option.toList_none, List.append_nil] at hkept

/-- A number that is too long stops a review that goes on. -/
theorem Collected.enter_number {r : Review} {ds : List Diagnostic} (h : r.Collected ds)
    (e : DigitLimit) :
    ds.length < 100 ∧ (r.enter (.number e)).stopped = some (.number e) ∨
      100 ≤ ds.length ∧ (r.enter (.number e)).Collected ds := by
  cases h with
  | full hn hs =>
    rw [enter_of_stopped hs]
    exact .inr ⟨hn, .full hn hs⟩
  | going hn hc hs =>
    refine .inl ⟨hn, ?_⟩
    unfold Review.enter
    rw [hs]
    rfl

theorem Collected.enterAll {fs : List Finding} {r : Review} {ds new : List Diagnostic}
    (h : r.Collected ds) (hf : fs.filterMap Finding.failure? = new.map .diagnostic) :
    (fs.foldl Review.enter r).Collected (ds ++ new) := by
  induction fs generalizing r ds new with
  | nil =>
    obtain rfl : new = [] := List.map_eq_nil_iff.1 hf.symm
    rw [List.append_nil]
    exact h
  | cons f fs ih =>
    rw [List.filterMap_cons] at hf
    cases hd : f.failure? with
    | none =>
      rw [hd] at hf
      exact ih (h.enter_quiet hd) hf
    | some e =>
      rw [hd] at hf
      obtain ⟨d, new, rfl, rfl, hrest⟩ := List.map_eq_cons_iff.1 hf.symm
      have hr : (r.enter f).Collected (ds ++ [d]) := h.enter (d := some d) hd
      rw [show ds ++ d :: new = ds ++ [d] ++ new by simp]
      exact ih hr hrest.symm

theorem Collected.error?_eq {r : Review} {ds : List Diagnostic} (h : r.Collected ds)
    (hne : ds ≠ []) : ∃ warnings, r.error? = some (refusal ds warnings) := by
  unfold error?
  cases h with
  | @full warnings hn hs => exact ⟨warnings, by rw [hs]⟩
  | @going warnings hn hc hs =>
    refine ⟨warnings, ?_⟩
    have herr : (Collector.mk errorLimit ds.toArray warnings).hasErrors = true := by
      simpa [Collector.hasErrors] using List.length_pos_iff.2 hne
    have hfailed : refusal ds warnings =
        .diagnostic (Collector.mk errorLimit ds.toArray warnings).failure := by
      unfold refusal
      rw [if_pos hn]
      rfl
    rw [hs, hc, hfailed]
    exact if_pos herr

theorem Collected.error?_eq_none {r : Review} (h : r.Collected []) : r.error? = none := by
  unfold error?
  cases h with
  | full hn hs => cases hn
  | going hn hc hs =>
    rw [hs, hc]
    rfl

theorem collected_ofFindings {fs : List Finding} {ds : List Diagnostic}
    (hf : fs.filterMap Finding.failure? = ds.map .diagnostic) : (ofFindings fs).Collected ds := by
  have hstart : start.Collected [] := .going (by decide) rfl rfl
  exact hstart.enterAll hf

/-- Nothing is wrong exactly when no finding is an error. -/
theorem error?_eq_none_iff {fs : List Finding} :
    (ofFindings fs).error? = none ↔ fs.filterMap Finding.failure? = [] := by
  constructor
  · intro h
    refine List.filterMap_eq_nil_iff.2 fun f hf => ?_
    have hquiet := (of_error?_eq_none h).1 f hf
    rw [Finding.isError_eq] at hquiet
    simpa using hquiet
  · intro h
    have hnone : (ofFindings fs).Collected [] := collected_ofFindings h
    exact hnone.error?_eq_none

end Review

end Assembly

end DecimalMachine
