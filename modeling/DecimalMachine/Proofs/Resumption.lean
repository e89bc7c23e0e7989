import DecimalMachine.Proofs.Loading
/-
  Resumption: the address before which a run has stopped at a breakpoint, and from which the next
  run goes on without asking again. The address is set by nothing but such a stop, and goes with
  the next attempt or the next start (`drive_resume`); so whenever it is set it is the program
  counter of a running machine, inside memory (`Resumable`).
-/
namespace DecimalMachine

/-- How a step or a run ended, without the place and the number of instructions. -/
def Outcome.ending : Outcome → Machine.Ending
  | .stopped event => .stopped event.reason
  | .failed e => .failed e
  | .unfinished => .unfinished

theorem Machine.Ending.ending_outcome (m : Machine) (k : Nat) (ending : Machine.Ending) :
    (ending.outcome m k).ending = ending := by
  cases ending <;> rfl

/-- How the step or the run of a call ended. -/
def Reply.ending : Reply → Option Machine.Ending
  | .went o => some o.ending
  | _ => none

namespace Machine

open Likeness (exact)

/-! ## Steps -/

/-- A step of a machine that cannot carry out anything, or one attempt. -/
inductive Stepped (m : Machine) : Traced (Machine × Outcome) → Prop
  | idle (hm : m.isRunning = false) : Stepped m ⟨[], m, .stopped (m.stop .notRunning 0)⟩
  | past (hm : m.isRunning = true) (hp : m.isPastEnd = true) :
      Stepped m ⟨[], m, .stopped (m.stop .endOfMemory 0)⟩
  | tried {k : Machine} {o : Outcome} (hm : m.isRunning = true) (hp : m.isPastEnd = false)
      (hk : exact.Alike k m) (hr : k.resume = none)
      (ho : match k.cycle.failure with
        | some e => o = .failed e
        | none => o = .stopped
            (k.next.stop (if k.next.state = .halted then .halted else .step) 1)) :
      Stepped m ⟨[k], k.next, o⟩

theorem stepped (m : Machine) : Stepped m m.stepTraced := by
  unfold stepTraced
  cases hm : m.isRunning with
  | false => exact .idle hm
  | true =>
    cases hp : m.isPastEnd with
    | true => exact .past hm hp
    | false =>
      dsimp only
      rw [if_neg (by decide), if_neg (by decide)]
      cases hf : ({ m with resume := none } : Machine).cycle.failure with
      | some e =>
        refine .tried (k := { m with resume := none }) hm hp (.setResume m none) rfl ?_
        rw [hf]
      | none =>
        refine .tried (k := { m with resume := none }) hm hp (.setResume m none) rfl ?_
        rw [hf]
        rfl

theorem stepTraced_of_not_running {m : Machine} (hm : m.isRunning = false) :
    m.stepTraced = ⟨[], m, .stopped (m.stop .notRunning 0)⟩ := by
  unfold stepTraced
  rw [hm]
  rfl

/-- A step of a running machine that is not at its end attempts one instruction. -/
theorem stepTraced_of_running {m : Machine} (hm : m.isRunning = true) (hp : m.isPastEnd = false) :
    ∃ k o, m.stepTraced = ⟨[k], k.next, o⟩ ∧ exact.Alike k m ∧
      match k.cycle.failure with
      | some e => o = .failed e
      | none => o = .stopped
          (k.next.stop (if k.next.state = .halted then .halted else .step) 1) := by
  have h := stepped m
  revert h
  generalize m.stepTraced = t
  intro h
  cases h with
  | idle hm' => rw [hm] at hm'; cases hm'
  | past _ hp' => rw [hp] at hp'; cases hp'
  | @tried k o _ _ hk _ ho => exact ⟨k, o, rfl, hk, ho⟩

/-- A step ends at no breakpoint. -/
theorem Stepped.ending_ne {m : Machine} {t : Traced (Machine × Outcome)} (h : Stepped m t) :
    t.result.2.ending ≠ .stopped .breakpoint := by
  cases h with
  | idle => nofun
  | past => nofun
  | @tried k o _ _ _ _ ho =>
    show o.ending ≠ _
    cases hf : k.cycle.failure with
    | some err =>
      rw [hf] at ho
      rw [show o = .failed err from ho]
      nofun
    | none =>
      rw [hf] at ho
      rw [show o = .stopped _ from ho]
      show Ending.stopped (if k.next.state = .halted then .halted else .step) ≠ _
      split <;> nofun

theorem Stepped.resume_eq {m : Machine} {t : Traced (Machine × Outcome)} (h : Stepped m t) :
    t.result.1.resume = if t.attempts = [] then m.resume else none := by
  cases h with
  | idle => rfl
  | past => rfl
  | tried _ _ _ hr => exact (next_resume _).trans hr

/-! ## Where to resume -/

/-- The address to resume at, if there is one, is that of the next instruction. -/
def Resumable (m : Machine) : Prop :=
  ∀ a, m.resume = some a → a = m.regs.pc ∧ m.isRunning = true ∧ m.memory.holds a = true

theorem Resumable.transfer {m k : Machine} (h : m.Resumable) (hk : exact.Alike k m)
    (hr : k.resume = m.resume) : k.Resumable := by
  intro a ha
  have hm : k.memory = m.memory := hk.memory
  rw [hr] at ha
  rw [hk.regs, hk.isRunning, hm]
  exact h a ha

/-- The next run goes on where the last one has stopped, if there is such a place. -/
theorem Resumable.resumes_iff {m : Machine} (h : m.Resumable) {a : Int} :
    m.resume = some a ↔ m.resumes = true ∧ a = m.regs.pc := by
  unfold resumes
  rw [decide_eq_true_iff]
  constructor
  · intro ha
    obtain ⟨rfl, -⟩ := h a ha
    exact ⟨ha, rfl⟩
  · rintro ⟨ha, rfl⟩
    exact ha

theorem Resumable.resume_eq_none {m : Machine} (h : m.Resumable) (hm : m.resumes = false) :
    m.resume = none := by
  cases ha : m.resume with
  | none => rfl
  | some a =>
    rw [(h.resumes_iff.1 ha).1] at hm
    cases hm

end Machine

namespace Emulator

open Machine Likeness

theorem run_ending (e : Emulator) (limit : Option Int) (patience : Nat) :
    (e.run limit patience).2.ending = (e.runTraced limit patience).result.outcome.ending :=
  congrArg Outcome.ending (run_exact e limit patience).1

theorem run_went (e : Emulator) (limit : Option Int) (patience : Nat)
    (hm : e.machine.isRunning = true) :
    ∃ passed more ending,
      Went e.breakpoints (lastEnding (limit <|> e.limit)) e.machine.resumes
        (allowance (limit <|> e.limit) patience) 0 e.machine (e.runTraced limit patience) passed
        more ending ∧
      (e.run limit patience).2.ending = ending := by
  obtain ⟨passed, more, ending, ht⟩ :=
    runTraced_went e.breakpoints (limit <|> e.limit) patience hm
  refine ⟨passed, more, ending, ht, ?_⟩
  have ho : (e.runTraced limit patience).result.outcome = _ := ht.outcome
  rw [run_ending, ho, Ending.ending_outcome]

/-- A run of a machine that does not run. -/
theorem run_idle (e : Emulator) (limit : Option Int) (patience : Nat)
    (hm : e.machine.isRunning = false) :
    (e.runTraced limit patience).attempts = [] ∧
      (e.runTraced limit patience).result.machine = e.machine ∧
      (e.run limit patience).2.ending = .stopped .notRunning := by
  have ht : e.runTraced limit patience = _ := runTraced_of_not_running _ _ _ hm
  refine ⟨by rw [ht], by rw [ht], ?_⟩
  rw [run_ending, ht]
  rfl

theorem step_ending_ne (e : Emulator) :
    (e.perform .step).2.ending ≠ some (.stopped .breakpoint) := by
  show some e.step.2.ending ≠ _
  rw [step_eq]
  exact fun h => (stepped e.machine).ending_ne (Option.some.inj h)

/-- Only steps and runs end. -/
theorem ending_of_not_drives (e : Emulator) {c : Call} (hc : c.drives = false) :
    (e.perform c).2.ending = none := by
  have hl : ∀ o, (Reply.ofLoad o).ending = none := by
    intro o
    cases o <;> rfl
  cases c with
  | load i => exact hl _
  | loadFile content =>
    cases content with
    | none => rfl
    | some text => exact hl _
  | reset => exact hl _
  | feed tokens => rfl
  | _ => cases hc

/-- What a call that drives the machine leaves of the address to resume at: the place where it
    has stopped at a breakpoint, what was there if it has attempted nothing, and nothing else. -/
theorem drive_resume {e : Emulator} (h : e.machine.Resumable) {c : Call} (hc : c.drives = true) :
    (e.perform c).1.machine.resume =
      if (e.perform c).2.ending = some (.stopped .breakpoint) then
        some (e.perform c).1.machine.regs.pc
      else if e.attempts c = [] then e.machine.resume
      else none := by
  cases c with
  | step =>
    rw [if_neg (step_ending_ne e)]
    show e.step.1.machine.resume = _
    rw [step_eq]
    exact (stepped e.machine).resume_eq
  | run limit patience =>
    obtain ⟨-, ha, hr⟩ := run_exact e limit patience
    show (e.run limit patience).1.machine.resume = _
    rw [hr]
    cases hm : e.machine.isRunning with
    | false =>
      obtain ⟨ht, hk, ho⟩ := run_idle e limit patience hm
      have ho : (e.perform (.run limit patience)).2.ending = _ := congrArg some ho
      rw [ho, hk, show e.attempts (.run limit patience) = [] from ht]
      rfl
    | true =>
      obtain ⟨passed, more, ending, ht, ho⟩ := run_went e limit patience hm
      have hpc : (e.perform (.run limit patience)).1.machine.regs =
        (e.runTraced limit patience).result.machine.regs := ha.regs
      have hl : (e.attempts (.run limit patience)).length = passed + more := ht.length
      have ho : (e.perform (.run limit patience)).2.ending = _ := congrArg some ho
      rw [ho, hpc, ht.resume]
      simp only [Option.some.injEq]
      split
      · rfl
      · by_cases hn : e.attempts (.run limit patience) = []
        · have h0 : passed + more = 0 := by rw [← hl, hn]; rfl
          rw [if_pos hn, h0]
          simp
        · have h0 : 0 < passed + more := by
            rw [← hl]
            exact List.length_pos_iff.2 hn
          rw [if_neg hn]
          cases hs : e.machine.resumes with
          | true => simp [h0]
          | false => simpa using h.resume_eq_none hs
  | addBreakpoint a => rfl
  | removeBreakpoint a => rfl
  | clearBreakpoints => rfl
  | _ => cases hc

/-- What a stop at a breakpoint says: it is in front of an instruction of a running machine at an
    address among the breakpoints, and not where the run has gone on from. -/
theorem at_breakpoint {e : Emulator} {c : Call}
    (h : (e.perform c).2.ending = some (.stopped .breakpoint)) :
    let m := (e.perform c).1.machine
    m.isRunning = true ∧ m.memory.holds m.regs.pc = true ∧
      e.breakpoints.contains m.regs.pc = true ∧ (e.machine.resumes = true → e.attempts c ≠ []) := by
  intro m
  cases c with
  | run limit patience =>
    obtain ⟨-, ha, -⟩ := run_exact e limit patience
    have h : (e.run limit patience).2.ending = .stopped .breakpoint := Option.some.inj h
    cases hm : e.machine.isRunning with
    | false =>
      rw [(run_idle e limit patience hm).2.2] at h
      cases h
    | true =>
      obtain ⟨passed, more, ending, ht, ho⟩ := run_went e limit patience hm
      obtain rfl : ending = .stopped .breakpoint := ho.symm.trans h
      obtain ⟨rfl, hs, hh, hb⟩ := of_verdict_eq_breakpoint (lastEnding_ne _) ht.ends
      have hk : exact.Alike m (next^[passed] e.machine) := ha.trans ht.machine
      have hmem : m.memory = _ := hk.memory
      rw [hk.isRunning, hmem, hk.regs]
      refine ⟨ht.running hm (Nat.le_refl _), hh, hb, ?_⟩
      intro hr hn
      have hl : (e.attempts (.run limit patience)).length = passed + 0 := ht.length
      rw [hn] at hl
      have h0 : passed = 0 := hl.symm
      rw [hr, h0] at hs
      cases hs
  | step => exact absurd h (step_ending_ne e)
  | addBreakpoint a => cases h
  | removeBreakpoint a => cases h
  | clearBreakpoints => cases h
  | _ =>
    rw [ending_of_not_drives e rfl] at h
    cases h

/-- Every call keeps the address to resume at that of the next instruction. -/
theorem resumable_perform {e : Emulator} (h : e.machine.Resumable) (c : Call) :
    (e.perform c).1.machine.Resumable := by
  cases hc : c.drives with
  | true =>
    have hr := drive_resume h hc
    by_cases hb : (e.perform c).2.ending = some (.stopped .breakpoint)
    · obtain ⟨hm, hh, -⟩ := at_breakpoint hb
      intro a ha
      rw [hr, if_pos hb] at ha
      obtain rfl := Option.some.inj ha
      exact ⟨rfl, hm, hh⟩
    · rw [if_neg hb] at hr
      by_cases hn : e.attempts c = []
      · rw [if_pos hn] at hr
        have ha := drive_exact e hc
        rw [hn] at ha
        exact h.transfer ha hr
      · rw [if_neg hn] at hr
        intro a ha
        rw [hr] at ha
        cases ha
  | false =>
    have hs := settled e hc
    revert hs
    cases e.perform c with
    | mk e' reply =>
      intro hs
      cases hs with
      | kept _ hk hr => exact h.transfer hk hr
      | @refused _ k i memory _ _ hi hk hr =>
        -- A load that is refused takes the words away, but not the cells.
        intro a ha
        have hm : k.memory = memory := hk.memory
        have hsize : memory.size = e.machine.memory.size := by
          rw [← Memory.size_clear e.machine.memory, ← i.size_loadOver e.machine.memory.clear, hi]
        have hst : k.isRunning = e.machine.isRunning := hk.isRunning
        have hregs : k.regs = e.machine.regs := hk.regs
        obtain ⟨hpc, hrun, hh⟩ := h a (hr ▸ ha)
        refine ⟨hregs ▸ hpc, hst ▸ hrun, ?_⟩
        show k.memory.holds a = true
        rw [hm, Memory.holds_congr hsize]
        exact hh
      | started _ _ _ hr =>
        intro a ha
        rw [hr] at ha
        cases ha
      | blank => nofun
      | fed => exact h

theorem resumable_performAll {memory : Memory} {input : List String} {limit : Option Int}
    (cs : List Call) : ((Emulator.new memory input limit).performAll cs).machine.Resumable := by
  refine performAll_keeps (P := fun e => e.machine.Resumable) ?_ ?_
  · exact nofun
  · exact fun e c _ he => resumable_perform he c

end Emulator

end DecimalMachine
