import Mathlib.Logic.Function.Iterate
import DecimalMachine.Emulator
import DecimalMachine.Proofs.Likeness
/-
  Attempts: which cycles a step or a run attempts. `stepTraced` and `runTraced` are the step and
  the run with a list of the machines to which they apply the cycle; without the list they are
  the step and the run (`stepTraced_result`, `runTraced_result`). What a run under breakpoints
  makes of the machine before each instruction is its `verdict`, which depends on that machine
  alone; `runFromTraced_went` says that a run goes on as long as the verdict is to go on, and
  ends as the first other verdict says.
-/
namespace DecimalMachine

/-- A result, and the machines to which the cycle was applied on the way to it, in order. -/
structure Traced (α : Type) where
  attempts : List Machine
  result : α

namespace Machine

variable {σ : Type}

/-! ## Steps and runs with their attempts -/

def stepTraced (m : Machine) : Traced (Machine × Outcome) :=
  if !m.isRunning then ⟨[], m, .stopped (m.stop .notRunning 0)⟩
  else if m.isPastEnd then ⟨[], m, .stopped (m.stop .endOfMemory 0)⟩
  else
    let m := { m with resume := none }
    let r := m.cycle
    match r.failure with
    | some e => ⟨[m], r.machine, .failed e⟩
    | none =>
      let reason := if r.machine.state = .halted then StopReason.halted else .step
      ⟨[m], r.machine, .stopped (r.machine.stop reason 1)⟩

def runFromTraced (watch : Option (Watch σ)) (atEnd : Machine → Nat → Outcome) :
    (allowed executed : Nat) → (memo : σ) → (m : Machine) → Traced (Run σ)
  | allowed, executed, memo, m =>
    if m.isPastEnd then
      let (m, outcome) := m.reachEnd executed
      ⟨[], m, memo, outcome⟩
    else
      match allowed with
      | 0 => ⟨[], m, memo, atEnd m executed⟩
      | allowed + 1 =>
        match consent watch (executed = 0) memo m with
        | .refuse e => ⟨[], m, memo, .failed e⟩
        | .halt m memo => ⟨[], m, memo, .stopped (m.stop .breakpoint executed)⟩
        | .go m memo =>
          let r := m.cycle
          match r.failure with
          | some e => ⟨[m], r.machine, memo, .failed e⟩
          | none =>
            if r.machine.state = .halted then
              ⟨[m], r.machine, memo, .stopped (r.machine.stop .halted (executed + 1))⟩
            else
              let rest := runFromTraced watch atEnd allowed (executed + 1) memo r.machine
              ⟨m :: rest.attempts, rest.result⟩

def runTraced (watch : Option (Watch σ)) (memo : σ) (limit : Option Int) (patience : Nat)
    (m : Machine) : Traced (Run σ) :=
  if !m.isRunning then ⟨[], m, memo, .stopped (m.stop .notRunning 0)⟩
  else
    match limit with
    | some n => runFromTraced watch (fun m k => .stopped (m.stop .cycleLimit k)) n.toNat 0 memo m
    | none => runFromTraced watch (fun _ _ => .unfinished) patience 0 memo m

theorem stepTraced_result (m : Machine) : m.stepTraced.result = m.step := by
  unfold stepTraced step
  split
  · rfl
  · split
    · rfl
    · dsimp only
      cases ({ m with resume := none } : Machine).cycle.failure <;> rfl

theorem runFromTraced_result (watch : Option (Watch σ)) (atEnd : Machine → Nat → Outcome)
    (allowed executed : Nat) (memo : σ) (m : Machine) :
    (runFromTraced watch atEnd allowed executed memo m).result =
      runFrom watch atEnd allowed executed memo m := by
  induction allowed generalizing executed memo m with
  | zero =>
    unfold runFromTraced runFrom
    split <;> rfl
  | succ allowed ih =>
    unfold runFromTraced runFrom
    split
    · rfl
    · dsimp only
      cases consent watch (executed = 0) memo m with
      | refuse e => rfl
      | halt m memo => rfl
      | go m memo =>
        dsimp only
        cases m.cycle.failure with
        | some e => rfl
        | none =>
          dsimp only
          split
          · rfl
          · exact ih _ _ _

theorem runTraced_result (watch : Option (Watch σ)) (memo : σ) (limit : Option Int)
    (patience : Nat) (m : Machine) :
    (runTraced watch memo limit patience m).result = run watch memo limit patience m := by
  unfold runTraced run
  split
  · rfl
  · split <;> exact runFromTraced_result _ _ _ _ _ _

/-! ## The machine behind some cycles -/

/-- The machine behind one attempted cycle. -/
def next (m : Machine) : Machine := m.cycle.machine

theorem cycle_exact {m m' : Machine} (h : Likeness.exact.Alike m m') :
    m.cycle.failure = m'.cycle.failure ∧ Likeness.exact.Alike m.next m'.next := by
  rcases h.cycle with ⟨e, -, hs⟩ | h
  · exact absurd hs id
  · exact h

theorem iterate_exact {m m' : Machine} (h : Likeness.exact.Alike m m') (k : Nat) :
    Likeness.exact.Alike (next^[k] m) (next^[k] m') := by
  induction k generalizing m m' with
  | zero => exact h
  | succ k ih => exact ih (cycle_exact h).2

end Machine

namespace Likeness.Alike

theorem refl (m : Machine) : exact.Alike m m := ⟨rfl, rfl, rfl, rfl, rfl, rfl, rfl, rfl⟩

theorem symm {m m' : Machine} (h : exact.Alike m m') : exact.Alike m' m :=
  ⟨h.memory.symm, h.regs.symm, h.state.symm, h.input.symm, h.output.symm, h.warnings.symm,
    h.cycles.symm, h.written.symm⟩

theorem trans {m m' m'' : Machine} (h : exact.Alike m m') (h' : exact.Alike m' m'') :
    exact.Alike m m'' :=
  ⟨h.memory.trans h'.memory, h.regs.trans h'.regs, h.state.trans h'.state,
    h.input.trans h'.input, h.output.trans h'.output, h.warnings.trans h'.warnings,
    h.cycles.trans h'.cycles, h.written.trans h'.written⟩

/-- Machines that are alike stay so when each is replaced by one that is the same but for notes. -/
theorem congr {L : Likeness} {m m' k k' : Machine} (h : L.Alike m m')
    (hk : exact.Alike k m) (hk' : exact.Alike k' m') : L.Alike k k' where
  memory := by
    have hm : k.memory = m.memory := hk.memory
    have hm' : k'.memory = m'.memory := hk'.memory
    rw [hm, hm']
    exact h.memory
  regs := hk.regs.trans (h.regs.trans hk'.regs.symm)
  state := hk.state.trans (h.state.trans hk'.state.symm)
  input := by
    have hi : k.input = m.input := hk.input
    have hi' : k'.input = m'.input := hk'.input
    rw [hi, hi']
    exact h.input
  output := hk.output.trans (h.output.trans hk'.output.symm)
  warnings := hk.warnings.trans (h.warnings.trans hk'.warnings.symm)
  cycles := hk.cycles.trans (h.cycles.trans hk'.cycles.symm)
  written := by
    have hw : k.written = m.written := hk.written
    have hw' : k'.written = m'.written := hk'.written
    rw [hw, hw']
    exact h.written

theorem setResume (m : Machine) (r : Option Int) : exact.Alike { m with resume := r } m :=
  ⟨rfl, rfl, rfl, rfl, rfl, rfl, rfl, rfl⟩

theorem of_note (m : Machine) (t : Note) : exact.Alike (m.note t) m :=
  ⟨rfl, rfl, rfl, rfl, rfl, rfl, rfl, Machine.written_note m t⟩

theorem isRunning {L : Likeness} {m m' : Machine} (h : L.Alike m m') :
    m.isRunning = m'.isRunning := by
  unfold Machine.isRunning
  rw [h.state]

theorem isPastEnd {m m' : Machine} (h : exact.Alike m m') : m.isPastEnd = m'.isPastEnd := by
  have hm : m.memory = m'.memory := h.memory
  unfold Machine.isPastEnd
  rw [hm, h.regs]

end Likeness.Alike

namespace Machine

open Likeness (exact)

/-! ## Verdicts -/

/-- Why a run does not go on: there is a reason to stop, an error, or no patience left. -/
inductive Ending
  | stopped (reason : StopReason)
  | failed (e : MachineError)
  | unfinished
deriving DecidableEq

/-- The outcome of a run that has ended with machine `m` after `k` cycles. -/
def Ending.outcome (m : Machine) (k : Nat) : Ending → Outcome
  | .stopped reason => .stopped (m.stop reason k)
  | .failed e => .failed e
  | .unfinished => .unfinished

/-- How a run ends that has come to the end of memory: it stops, unless the program counter is too
    long for the note on that. -/
def endingAtEnd (m : Machine) : Ending :=
  if Text.IsWritable m.regs.pc then .stopped .endOfMemory else .failed (.number .writing)

theorem endingAtEnd_ne {m : Machine} {reason : StopReason} (h : reason ≠ .endOfMemory) :
    m.endingAtEnd ≠ .stopped reason := by
  unfold endingAtEnd
  split
  · exact fun he => h (Ending.stopped.inj he).symm
  · nofun

theorem reachEnd_of_writable {m : Machine} (h : Text.IsWritable m.regs.pc) (k : Nat) :
    ∃ note, m.reachEnd k = (m.note note, .stopped (m.stop .endOfMemory k)) := by
  unfold reachEnd endNote
  rw [Text.writeNumeral_of_writable h]
  exact ⟨_, rfl⟩

theorem reachEnd_of_not_writable {m : Machine} (h : ¬Text.IsWritable m.regs.pc) (k : Nat) :
    m.reachEnd k = (m, .failed (.number .writing)) := by
  unfold reachEnd endNote
  rw [Text.writeNumeral_of_not_writable h]
  rfl

theorem of_reachEnd_failed {m : Machine} {k : Nat} {err : MachineError}
    (h : (m.reachEnd k).2 = .failed err) : ¬Text.IsWritable m.regs.pc ∧ err = .number .writing := by
  by_cases hw : Text.IsWritable m.regs.pc
  · obtain ⟨note, hr⟩ := reachEnd_of_writable hw k
    rw [hr] at h
    cases h
  · rw [reachEnd_of_not_writable hw] at h
    exact ⟨hw, (Outcome.failed.inj h).symm⟩

theorem reachEnd_outcome (m : Machine) (k : Nat) :
    (m.reachEnd k).2 = m.endingAtEnd.outcome (m.reachEnd k).1 k := by
  unfold endingAtEnd
  by_cases h : Text.IsWritable m.regs.pc
  · obtain ⟨note, hr⟩ := reachEnd_of_writable h k
    rw [hr, if_pos h]
    rfl
  · rw [reachEnd_of_not_writable h, if_neg h]
    rfl

/-- The machine at the end of memory is the same but for the note. -/
theorem reachEnd_exact (m : Machine) (k : Nat) :
    exact.Alike (m.reachEnd k).1 m ∧ (m.reachEnd k).1.resume = m.resume := by
  by_cases h : Text.IsWritable m.regs.pc
  · obtain ⟨note, hr⟩ := reachEnd_of_writable h k
    rw [hr]
    exact ⟨.of_note m note, rfl⟩
  · rw [reachEnd_of_not_writable h]
    exact ⟨.refl m, rfl⟩

/-- What a run makes of the machine before an instruction: nothing when it carries it out and
    goes on, otherwise how it ends and whether the instruction is attempted. `skip` says that
    the run resumes here, `spent` that it is allowed no more instructions and ends in `last`. -/
def verdict (breakpoints : List Int) (last : Ending) (skip spent : Bool) (m : Machine) :
    Option (Nat × Ending) :=
  if m.isPastEnd then some (0, m.endingAtEnd)
  else if spent then some (0, last)
  else if !skip && !m.memory.holds m.regs.pc then
    some (0, .failed (m.memory.outside m.regs.pc))
  else if !skip && breakpoints.contains m.regs.pc then some (0, .stopped .breakpoint)
  else
    match m.cycle.failure with
    | some e => some (1, .failed e)
    | none => if m.next.state = .halted then some (1, .stopped .halted) else none

theorem verdict_congr {m m' : Machine} (h : exact.Alike m m') (breakpoints : List Int)
    (last : Ending) (skip spent : Bool) :
    verdict breakpoints last skip spent m = verdict breakpoints last skip spent m' := by
  have hm : m.memory = m'.memory := h.memory
  obtain ⟨hf, hn⟩ := cycle_exact h
  unfold verdict endingAtEnd
  rw [h.isPastEnd, hm, h.regs, hf, hn.state]

/-- A run resumes here: a breakpoint has stopped the last one before this instruction. -/
def resumes (m : Machine) : Bool := m.resume = some m.regs.pc

/-- The machine that a run goes on with: it resumes once. -/
def resumed (m : Machine) (skip : Bool) : Machine :=
  if skip then { m with resume := none } else m

theorem next_resume (m : Machine) : m.next.resume = m.resume := by
  refine cycle_keeps (P := fun k => k.resume = m.resume) (fail_resume m) (fun w _ r hr => ?_)
  have hr' : r.machine.resume = m.resume := by
    cases hr with
    | unknown text => rfl
    | unwritten => exact fail_resume _ _
    | known _ hc =>
      cases hc with
      | refused => exact fail_resume _ _
      | refusedToken _ hk => cases hk <;> exact fail_resume _ _
      | tookToken _ hk => cases hk <;> rfl
      | _ => rfl
  exact ⟨fun _ => (advance_resume _).trans hr', fun _ => hr'⟩

theorem next_cycles (m : Machine) :
    m.next.cycles = m.cycles + if m.cycle.failure.isNone then 1 else 0 := cycle_cycles m

theorem resumed_next_resume (m : Machine) (skip : Bool) :
    (m.resumed skip).next.resume = if skip then none else m.resume := by
  rw [next_resume]
  cases skip <;> rfl

theorem resumed_exact (m : Machine) (skip : Bool) : exact.Alike (m.resumed skip) m := by
  unfold resumed
  split
  · exact .setResume m none
  · exact .refl m

/-- Nothing keeps a run from attempting the instruction at the program counter. -/
def Admits (breakpoints : List Int) (skip : Bool) (m : Machine) : Prop :=
  skip = true ∨ m.memory.holds m.regs.pc = true ∧ breakpoints.contains m.regs.pc = false

/-- What the breakpoints say before an instruction, the first of a run or a later one. -/
theorem consent_watch (breakpoints : List Int) (first : Bool) (m : Machine) :
    Admits breakpoints (first && m.resumes) m ∧
        consent (some (Emulator.watch breakpoints)) first () m =
          .go (m.resumed (first && m.resumes)) () ∨
      (first && m.resumes) = false ∧ m.memory.holds m.regs.pc = false ∧
        consent (some (Emulator.watch breakpoints)) first () m =
          .refuse (m.memory.outside m.regs.pc) ∨
      (first && m.resumes) = false ∧ m.memory.holds m.regs.pc = true ∧
        breakpoints.contains m.regs.pc = true ∧
        consent (some (Emulator.watch breakpoints)) first () m =
          .halt { m with resume := some m.regs.pc } () := by
  have hconsult : consent (some (Emulator.watch breakpoints)) first () m =
      consult (Emulator.watch breakpoints) first () m := rfl
  rw [hconsult]
  cases hs : first && m.resumes with
  | true => exact .inl ⟨.inl rfl, if_pos hs⟩
  | false =>
    have hno : ¬ (first && m.resumes) = true := Bool.eq_false_iff.1 hs
    cases hr : m.memory.read? m.regs.pc with
    | none =>
      have hread : m.memory.read m.regs.pc = .error (m.memory.outside m.regs.pc) := by
        unfold Memory.read
        rw [hr]
      refine .inr (.inl ⟨rfl, Memory.read?_eq_none_iff.1 hr, (if_neg hno).trans ?_⟩)
      rw [hread]
    | some c =>
      have hread : m.memory.read m.regs.pc = .ok c := by
        unfold Memory.read
        rw [hr]
      have hh := Memory.holds_of_read? hr
      cases hb : breakpoints.contains m.regs.pc with
      | true =>
        refine .inr (.inr ⟨rfl, hh, rfl, (if_neg hno).trans ?_⟩)
        rw [hread]
        unfold Emulator.watch
        rw [hb]
        rfl
      | false =>
        refine .inl ⟨.inr ⟨hh, hb⟩, (if_neg hno).trans ?_⟩
        rw [hread]
        unfold Emulator.watch
        rw [hb]
        rfl

theorem verdict_of_admits {breakpoints : List Int} (last : Ending) {skip : Bool} {m : Machine}
    (hp : m.isPastEnd = false) (ha : Admits breakpoints skip m) :
    verdict breakpoints last skip false m =
      match m.cycle.failure with
      | some e => some (1, .failed e)
      | none => if m.next.state = .halted then some (1, .stopped .halted) else none := by
  unfold verdict
  rcases ha with rfl | ⟨hh, hb⟩
  · simp only [hp, Bool.not_true, Bool.false_and, Bool.false_eq_true, if_false]
  · simp only [hp, hh, hb, Bool.not_true, Bool.and_false, Bool.false_eq_true, if_false]

/-- A verdict is to end without an attempt, or comes from attempting the instruction. -/
theorem verdict_cases (breakpoints : List Int) (last : Ending) (skip spent : Bool) (m : Machine) :
    (∃ ending, verdict breakpoints last skip spent m = some (0, ending)) ∨
      m.isPastEnd = false ∧ spent = false ∧ Admits breakpoints skip m := by
  cases hp : m.isPastEnd with
  | true => exact .inl ⟨m.endingAtEnd, by unfold verdict; rw [hp]; rfl⟩
  | false =>
    cases spent with
    | true => exact .inl ⟨last, by unfold verdict; rw [hp]; rfl⟩
    | false =>
      cases skip with
      | true => exact .inr ⟨rfl, rfl, .inl rfl⟩
      | false =>
        cases hh : m.memory.holds m.regs.pc with
        | false => exact .inl ⟨.failed _, by unfold verdict; rw [hp, hh]; rfl⟩
        | true =>
          cases hb : breakpoints.contains m.regs.pc with
          | true => exact .inl ⟨.stopped .breakpoint, by unfold verdict; rw [hp, hh, hb]; rfl⟩
          | false => exact .inr ⟨rfl, rfl, .inr ⟨hh, hb⟩⟩

/-- What a run goes on from has been completed, and has not halted. -/
theorem of_verdict_eq_none {breakpoints : List Int} {last : Ending} {skip spent : Bool}
    {m : Machine} (h : verdict breakpoints last skip spent m = none) :
    Admits breakpoints skip m ∧ m.cycle.failure = none ∧ m.next.state ≠ .halted := by
  rcases verdict_cases breakpoints last skip spent m with ⟨ending, he⟩ | ⟨hp, rfl, ha⟩
  · rw [h] at he
    cases he
  · rw [verdict_of_admits last hp ha] at h
    cases hf : m.cycle.failure with
    | some e => rw [hf] at h; cases h
    | none =>
      rw [hf] at h
      refine ⟨ha, rfl, fun hh => ?_⟩
      dsimp only at h
      rw [if_pos hh] at h
      cases h

/-- A run ends with one attempt at most, and then nothing kept it from making it. -/
theorem of_verdict_eq_some {breakpoints : List Int} {last : Ending} {skip spent : Bool}
    {m : Machine} {more : Nat} {ending : Ending}
    (h : verdict breakpoints last skip spent m = some (more, ending)) :
    more = 0 ∨ more = 1 ∧ Admits breakpoints skip m := by
  rcases verdict_cases breakpoints last skip spent m with ⟨ending', he⟩ | ⟨hp, rfl, ha⟩
  · rw [h] at he
    exact .inl (congrArg Prod.fst (Option.some.inj he))
  · rw [verdict_of_admits last hp ha] at h
    refine .inr ⟨?_, ha⟩
    cases hf : m.cycle.failure with
    | some e =>
      rw [hf] at h
      exact (congrArg Prod.fst (Option.some.inj h)).symm
    | none =>
      rw [hf] at h
      dsimp only at h
      split at h
      · exact (congrArg Prod.fst (Option.some.inj h)).symm
      · cases h

/-- An attempt that ends a run has failed, or has halted the machine. -/
theorem of_verdict_eq_attempt {breakpoints : List Int} {last : Ending} {skip spent : Bool}
    {m : Machine} {ending : Ending}
    (h : verdict breakpoints last skip spent m = some (1, ending)) :
    (∃ e, m.cycle.failure = some e ∧ ending = .failed e) ∨
      m.cycle.failure = none ∧ ending = .stopped .halted := by
  rcases verdict_cases breakpoints last skip spent m with ⟨ending', he⟩ | ⟨hp, rfl, ha⟩
  · rw [h] at he
    exact absurd (congrArg Prod.fst (Option.some.inj he)) Nat.one_ne_zero
  · rw [verdict_of_admits last hp ha] at h
    cases hf : m.cycle.failure with
    | some e =>
      rw [hf] at h
      exact .inl ⟨e, rfl, (congrArg Prod.snd (Option.some.inj h)).symm⟩
    | none =>
      rw [hf] at h
      dsimp only at h
      split at h
      · exact .inr ⟨rfl, (congrArg Prod.snd (Option.some.inj h)).symm⟩
      · cases h

/-- What stops at a breakpoint has attempted nothing there, and does not resume there. -/
theorem of_verdict_eq_breakpoint {breakpoints : List Int} {last : Ending} {skip spent : Bool}
    {m : Machine} {more : Nat} (hl : last ≠ .stopped .breakpoint)
    (h : verdict breakpoints last skip spent m = some (more, .stopped .breakpoint)) :
    more = 0 ∧ skip = false ∧ m.memory.holds m.regs.pc = true ∧
      breakpoints.contains m.regs.pc = true := by
  unfold verdict at h
  split at h
  · exact absurd (congrArg Prod.snd (Option.some.inj h)) (endingAtEnd_ne nofun)
  · split at h
    · obtain ⟨-, hlast⟩ := Prod.mk.inj (Option.some.inj h)
      exact absurd hlast hl
    · split at h
      · cases h
      · split at h
        · rename_i hh hb
          obtain ⟨rfl, -⟩ := Prod.mk.inj (Option.some.inj h)
          simp only [Bool.and_eq_true, Bool.not_eq_true'] at hh hb
          obtain ⟨rfl, hb⟩ := hb
          refine ⟨rfl, rfl, ?_, hb⟩
          simpa using hh
        · split at h
          · cases h
          · split at h <;> cases h

/-- A run that reaches its limit has attempted all that it may. -/
theorem of_verdict_eq_limit {breakpoints : List Int} {last : Ending} {skip spent : Bool}
    {m : Machine} {more : Nat}
    (h : verdict breakpoints last skip spent m = some (more, .stopped .cycleLimit)) :
    more = 0 ∧ spent = true := by
  unfold verdict at h
  split at h
  · exact absurd (congrArg Prod.snd (Option.some.inj h)) (endingAtEnd_ne nofun)
  · split at h
    · rename_i hs
      exact ⟨(congrArg Prod.fst (Option.some.inj h)).symm, hs⟩
    · split at h
      · cases h
      · split at h
        · cases h
        · split at h
          · cases h
          · split at h <;> cases h

theorem isRunning_next {m : Machine} (hm : m.isRunning = true) (hf : m.cycle.failure = none)
    (hh : m.next.state ≠ .halted) : m.next.isRunning = true := by
  unfold isRunning at hm ⊢
  rcases cycle_state hf with hs | hs
  · rw [show m.next.state = m.state from hs]
    exact hm
  · exact absurd hs hh

/-- The run from `m` that is allowed `allowed` instructions after `executed` of them went as `t`
    says: it carried out `passed` instructions with no reason to stop, and then ended in `ending`
    with `more` attempted instructions. -/
structure Went (breakpoints : List Int) (last : Ending) (skip : Bool) (allowed executed : Nat)
    (m : Machine) (t : Traced (Run Unit)) (passed more : Nat) (ending : Ending) : Prop where
  passes : ∀ i < passed, verdict breakpoints last (skip && i = 0) false (next^[i] m) = none
  ends : verdict breakpoints last (skip && passed = 0) (passed = allowed) (next^[passed] m) =
    some (more, ending)
  within : passed ≤ allowed
  length : t.attempts.length = passed + more
  attempts : ∀ i (h : i < t.attempts.length), exact.Alike t.attempts[i] (next^[i] m)
  machine : exact.Alike t.result.machine (next^[passed + more] m)
  outcome : t.result.outcome = ending.outcome t.result.machine (executed + passed + more)
  resume : t.result.machine.resume =
    if ending = .stopped .breakpoint then some t.result.machine.regs.pc
    else if skip && 0 < passed + more then none
    else m.resume

theorem Went.more_le {breakpoints : List Int} {last : Ending} {skip : Bool}
    {allowed executed : Nat} {m : Machine} {t : Traced (Run Unit)} {passed more : Nat}
    {ending : Ending} (h : Went breakpoints last skip allowed executed m t passed more ending) :
    more ≤ 1 := by
  rcases of_verdict_eq_some h.ends with h | ⟨h, -⟩ <;> omega

/-- A run attempts no instruction of a machine that does not run. -/
theorem Went.running {breakpoints : List Int} {last : Ending} {skip : Bool}
    {allowed executed : Nat} {m : Machine} {t : Traced (Run Unit)} {passed more : Nat}
    {ending : Ending} (h : Went breakpoints last skip allowed executed m t passed more ending)
    (hm : m.isRunning = true) {i : Nat} (hi : i ≤ passed) :
    (next^[i] m).isRunning = true := by
  induction i with
  | zero => exact hm
  | succ i ih =>
    obtain ⟨-, hf, hh⟩ := of_verdict_eq_none (h.passes i (by omega))
    rw [Function.iterate_succ_apply']
    exact isRunning_next (ih (by omega)) hf hh

/-- A run that ends before its first instruction. -/
theorem Went.of_nil {breakpoints : List Int} {last : Ending} {skip : Bool}
    {allowed executed : Nat} {m : Machine} {r : Run Unit} {ending : Ending}
    (hv : verdict breakpoints last skip (0 = allowed) m = some (0, ending))
    (hm : exact.Alike r.machine m) (ho : r.outcome = ending.outcome r.machine executed)
    (hr : r.machine.resume =
      if ending = .stopped .breakpoint then some r.machine.regs.pc else m.resume) :
    Went breakpoints last skip allowed executed m ⟨[], r⟩ 0 0 ending where
  passes i hi := absurd hi (Nat.not_lt_zero i)
  ends := by simpa using hv
  within := Nat.zero_le _
  length := rfl
  attempts i hi := absurd hi (Nat.not_lt_zero i)
  machine := hm
  outcome := ho
  resume := by simpa using hr

/-- A run that begins past the end of memory. -/
theorem Went.of_past {breakpoints : List Int} {last : Ending} {skip : Bool}
    {allowed executed : Nat} {m : Machine} (hp : m.isPastEnd = true) :
    Went breakpoints last skip allowed executed m
      ⟨[], (m.reachEnd executed).1, (), (m.reachEnd executed).2⟩ 0 0 m.endingAtEnd := by
  obtain ⟨hm, hr⟩ := reachEnd_exact m executed
  refine .of_nil ?_ hm (reachEnd_outcome m executed) ?_
  · unfold verdict
    rw [if_pos hp]
  · have hne : m.endingAtEnd ≠ .stopped .breakpoint := endingAtEnd_ne nofun
    rw [if_neg hne]
    exact hr

/-- A run that ends with its first instruction. -/
theorem Went.of_singleton {breakpoints : List Int} {last : Ending} {skip : Bool}
    {allowed executed : Nat} {m k : Machine} {r : Run Unit} {ending : Ending}
    (hv : verdict breakpoints last skip false m = some (1, ending)) (hk : exact.Alike k m)
    (hm : exact.Alike r.machine (next m))
    (ho : r.outcome = ending.outcome r.machine (executed + 1))
    (hr : r.machine.resume = if skip then none else m.resume)
    (hb : ending ≠ .stopped .breakpoint) :
    Went breakpoints last skip (allowed + 1) executed m ⟨[k], r⟩ 0 1 ending where
  passes i hi := absurd hi (Nat.not_lt_zero i)
  ends := by simpa using hv
  within := Nat.zero_le _
  length := rfl
  attempts i hi := by
    obtain rfl : i = 0 := by simpa using hi
    exact hk
  machine := hm
  outcome := ho
  resume := by simpa [hb] using hr

/-- A run that goes on behind its first instruction. -/
theorem Went.cons {breakpoints : List Int} {last : Ending} {skip : Bool}
    {allowed executed passed more : Nat} {m k m' : Machine} {t : Traced (Run Unit)}
    {ending : Ending} (hv : verdict breakpoints last skip false m = none) (hk : exact.Alike k m)
    (hm : exact.Alike m' (next m)) (hr : m'.resume = if skip then none else m.resume)
    (ht : Went breakpoints last false allowed (executed + 1) m' t passed more ending) :
    Went breakpoints last skip (allowed + 1) executed m ⟨k :: t.attempts, t.result⟩ (passed + 1)
      more ending where
  passes i hi := by
    cases i with
    | zero => simpa using hv
    | succ i =>
      have h := ht.passes i (by omega)
      rw [verdict_congr (iterate_exact hm i)] at h
      simpa using h
  ends := by
    have h := ht.ends
    rw [verdict_congr (iterate_exact hm passed)] at h
    simpa using h
  within := Nat.succ_le_succ ht.within
  length := by rw [List.length_cons, ht.length]; omega
  attempts i hi := by
    cases i with
    | zero => exact hk
    | succ i =>
      have hi' : i < t.attempts.length := by simpa using hi
      exact (ht.attempts i hi').trans (iterate_exact hm i)
  machine := by
    have h := ht.machine.trans (iterate_exact hm _)
    rw [show passed + 1 + more = passed + more + 1 by omega]
    exact h
  outcome := by
    rw [ht.outcome]
    congr 1
    omega
  resume := by
    have h : 0 < passed + 1 + more := by omega
    rw [ht.resume, hr]
    simp [h]

/-- A run goes on as long as the verdicts say so, and ends as the first other verdict says. -/
theorem runFromTraced_went (breakpoints : List Int) {last : Ending}
    (hl : last ≠ .stopped .breakpoint) (allowed executed : Nat) (m : Machine) :
    ∃ passed more ending, Went breakpoints last (executed = 0 && m.resumes) allowed executed m
      (runFromTraced (some (Emulator.watch breakpoints)) (fun m k => last.outcome m k) allowed
        executed () m) passed more ending := by
  induction allowed generalizing executed m with
  | zero =>
    unfold runFromTraced
    cases hp : m.isPastEnd with
    | true =>
      exact ⟨0, 0, m.endingAtEnd, .of_past hp⟩
    | false =>
      refine ⟨0, 0, last, .of_nil ?_ (.refl m) rfl (if_neg hl).symm⟩
      simp [verdict, hp]
  | succ allowed ih =>
    unfold runFromTraced
    cases hp : m.isPastEnd with
    | true =>
      exact ⟨0, 0, m.endingAtEnd, .of_past hp⟩
    | false =>
      dsimp only
      rw [if_neg Bool.false_ne_true]
      rcases consent_watch breakpoints (executed = 0) m with
        ⟨ha, hc⟩ | ⟨hs, hh, hc⟩ | ⟨hs, hh, hb, hc⟩
      · have hv := verdict_of_admits last hp ha
        have hk := m.resumed_exact (decide (executed = 0) && m.resumes)
        have hr := m.resumed_next_resume (decide (executed = 0) && m.resumes)
        obtain ⟨hf, hn⟩ := cycle_exact hk
        rw [hc]
        dsimp only
        rw [hf]
        cases he : m.cycle.failure with
        | some e =>
          rw [he] at hv
          exact ⟨0, 1, .failed e, .of_singleton hv hk hn rfl hr nofun⟩
        | none =>
          rw [he] at hv
          dsimp only at hv ⊢
          rw [← hn.state] at hv
          split
          · rename_i hh
            rw [if_pos (show (next (m.resumed _)).state = .halted from hh)] at hv
            exact ⟨0, 1, .stopped .halted, .of_singleton hv hk hn rfl hr nofun⟩
          · rename_i hh
            rw [if_neg (show ¬ (next (m.resumed _)).state = .halted from hh)] at hv
            obtain ⟨passed, more, ending, ht⟩ := ih (executed + 1) (next (m.resumed _))
            exact ⟨passed + 1, more, ending, ht.cons hv hk hn hr⟩
      · rw [hc, hs]
        refine ⟨0, 0, .failed _, .of_nil ?_ (.refl m) rfl rfl⟩
        simp [verdict, hp, hh]
      · rw [hc, hs]
        refine ⟨0, 0, .stopped .breakpoint, .of_nil ?_ (.setResume m _) rfl rfl⟩
        unfold verdict
        rw [hp, hh, hb]
        rfl

/-- How many instructions a run may attempt. -/
def allowance (limit : Option Int) (patience : Nat) : Nat :=
  match limit with
  | some n => n.toNat
  | none => patience

/-- How a run ends that has attempted all it may. -/
def lastEnding : Option Int → Ending
  | some _ => .stopped .cycleLimit
  | none => .unfinished

theorem lastEnding_ne (limit : Option Int) : lastEnding limit ≠ .stopped .breakpoint := by
  cases limit <;> nofun

theorem runTraced_went (breakpoints : List Int) (limit : Option Int) (patience : Nat)
    {m : Machine} (hm : m.isRunning = true) :
    ∃ passed more ending, Went breakpoints (lastEnding limit) m.resumes (allowance limit patience)
      0 m (runTraced (some (Emulator.watch breakpoints)) () limit patience m) passed more
      ending := by
  unfold runTraced
  rw [hm, Bool.not_true, if_neg Bool.false_ne_true]
  cases limit with
  | some n => exact runFromTraced_went breakpoints (lastEnding_ne (some n)) n.toNat 0 m
  | none => exact runFromTraced_went breakpoints (lastEnding_ne none) patience 0 m

theorem runTraced_of_not_running (breakpoints : List Int) (limit : Option Int) (patience : Nat)
    {m : Machine} (hm : m.isRunning = false) :
    runTraced (some (Emulator.watch breakpoints)) () limit patience m =
      ⟨[], m, (), .stopped (m.stop .notRunning 0)⟩ := by
  unfold runTraced
  rw [hm]
  rfl

end Machine

end DecimalMachine
