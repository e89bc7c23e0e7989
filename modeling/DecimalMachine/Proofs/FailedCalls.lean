import DecimalMachine.Proofs.Failures
import DecimalMachine.Proofs.Schedule
/-
  Failed calls: what a step or a run that fails leaves behind. Whatever images have been loaded, it
  leaves the machine faulted, and then no step and no run changes anything until the machine starts
  over. There are two ways out (`Emulator.Escapes`), and both leave the machine running: a run is
  asked for while the program counter is in front of memory, where the watch of the run fails and
  not an instruction, or a numeral is read with more digits than a number may have. Images that
  begin inside memory and tokens that are not too long leave no way out (`Emulator.Plain`).
-/
namespace DecimalMachine

/-- The call lets the machine execute. -/
def Call.executes : Call → Bool
  | .step | .run .. => true
  | _ => false

/-- The call brings no image that begins in front of memory and no token that cannot be read. -/
def Call.Plain (c : Call) : Prop :=
  (∀ i, c = .load i → 0 ≤ i.origin) ∧ ∀ tokens, c = .feed tokens → ∀ t ∈ tokens, Text.Legible t

namespace Emulator

open Machine Likeness

/-- The ways for a call to fail and leave the machine running: it is a run in front of memory, or
    it attempts to read a numeral that is too long. -/
def Escapes (e : Emulator) (c : Call) : Prop :=
  (∃ limit patience, c = .run limit patience) ∧ e.machine.regs.pc < 0 ∨
    ∃ m ∈ e.attempts c, m.Chokes

/-- The same emulator, but for the notes of its machine. -/
structure Same (e e' : Emulator) : Prop where
  view : e'.machine.view = e.machine.view
  resume : e'.machine.resume = e.machine.resume
  breakpoints : e'.breakpoints = e.breakpoints
  image : e'.image = e.image
  limit : e'.limit = e.limit

variable {size : Nat} {e : Emulator}

/-! ## Sessions with any images -/

/-- Every call keeps the machine in range, whatever image it may load. -/
theorem bounded_perform (h : Bounded size e.machine) (c : Call) :
    Bounded size (e.perform c).1.machine := by
  cases hd : c.drives with
  | true =>
    have ha := drive_exact e hd
    exact (h.iterate fun i hi => drive_running e c hi).of_eq ha.memory ha.regs
  | false =>
    have hs := settled e hd
    revert hs
    cases e.perform c with
    | mk e' reply =>
      intro hs
      have hstart : ∀ (memory : Memory) (origin : Int), memory.size = e.machine.memory.size →
          memory.Ranged → Text.IsWritable origin →
          Bounded size ({ e.machine with memory }.reset origin) := by
        intro memory origin hsize hr ho
        have hsize : memory.size = size := hsize.trans h.atZero.size_eq
        exact hsize ▸ bounded_reset { e.machine with memory } hr ho
      cases hs with
      | kept _ hk => exact h.of_eq hk.memory hk.regs
      | @refused _ k i memory _ _ hl hk =>
        obtain ⟨hsize, hranged⟩ := Image.loadOver_clear hl
        exact (h.setMemory hsize hranged).of_eq hk.memory hk.regs
      | started _ hl hk =>
        have hsize := (Image.size_of_loadInto hl).trans (Memory.size_clear _)
        have hr := Image.ranged_of_loadInto (Memory.Ranged.clear _) hl
        have ho := (Image.loadInto_eq_ok_iff.1 hl).1
        exact (hstart _ _ hsize hr ho).of_eq hk.memory hk.regs
      | blank => exact hstart _ 0 (Memory.size_clear _) (Memory.Ranged.clear _) (by decide)
      | fed => exact h.of_eq rfl rfl

theorem bounded_performAll (h : IsMemorySize size) (input : List String) (limit : Option Int)
    (calls : List Call) :
    Bounded size ((Emulator.new (.zeros size h) input limit).performAll calls).machine :=
  performAll_keeps (P := fun e => Bounded size e.machine)
    (sound_new size h input limit).machine.bounded fun _ c _ he => bounded_perform he c

/-! ## Calls that fail -/

/-- A step stops with no attempt, or it attempts one instruction and fails if that does. -/
theorem step_tried (e : Emulator) :
    e.attempts .step = [] ∧ (e.machine.isRunning = true → e.machine.isPastEnd = true) ∧
        (∃ event, (e.perform .step).2 = .went (.stopped event)) ∨
      ∃ k, e.attempts .step = [k] ∧ exact.Alike k e.machine ∧ e.machine.isRunning = true ∧
        (e.perform .step).1.machine = k.next ∧
        ∀ err, (e.perform .step).2 = .went (.failed err) ↔ k.cycle.failure = some err := by
  have hs := stepped e.machine
  unfold perform attempts
  rw [step_eq]
  revert hs
  cases e.machine.stepTraced with
  | mk ms r =>
    intro hs
    cases hs with
    | idle hm =>
      exact .inl ⟨rfl, fun h => absurd (hm.symm.trans h) Bool.false_ne_true, _, rfl⟩
    | past _ hp => exact .inl ⟨rfl, fun _ => hp, _, rfl⟩
    | @tried k o hm _ hk _ ho =>
      refine .inr ⟨k, rfl, hk, hm, rfl, fun err => ?_⟩
      show Reply.went o = .went (.failed err) ↔ _
      cases hf : k.cycle.failure with
      | some err' =>
        rw [hf] at ho
        rw [show o = .failed err' from ho, Option.some.injEq, Reply.went.injEq,
          Outcome.failed.injEq]
      | none =>
        rw [hf] at ho
        rw [show o = .stopped _ from ho]
        exact iff_of_false nofun nofun

/-- A call fails with the instruction that fails. -/
theorem reply_of_attempt {c : Call} {k : Machine} (hk : k ∈ e.attempts c) {err : MachineError}
    (hf : k.cycle.failure = some err) : (e.perform c).2 = .went (.failed err) := by
  cases c with
  | step =>
    rcases step_tried e with ⟨hnone, -, -⟩ | ⟨k', hone, -, -, -, hreply⟩
    · rw [hnone] at hk
      cases hk
    · rw [hone] at hk
      obtain rfl := List.mem_singleton.1 hk
      exact (hreply err).2 hf
  | run limit patience =>
    cases hm : e.machine.isRunning with
    | false =>
      have hnone : e.attempts (.run limit patience) = [] := (run_idle e limit patience hm).1
      rw [hnone] at hk
      cases hk
    | true =>
      obtain ⟨passed, more, ending, ht, -⟩ := run_went e limit patience hm
      obtain ⟨i, hi, rfl⟩ := List.mem_iff_getElem.1 hk
      have hl : (e.attempts (.run limit patience)).length = passed + more := ht.length
      have hfail := (cycle_exact (ht.attempts i hi)).1
      have hmore := ht.more_le
      have hlast : passed ≤ i := by
        refine Nat.not_lt.1 fun hlt => ?_
        rw [(of_verdict_eq_none (ht.passes i hlt)).2.1] at hfail
        exact nomatch hf.symm.trans hfail
      obtain rfl : passed = i := by omega
      obtain rfl : more = 1 := by omega
      have hfail : (next^[passed] e.machine).cycle.failure = some err := hfail.symm.trans hf
      obtain rfl : ending = .failed err := by
        rcases of_verdict_eq_attempt ht.ends with ⟨err', he, rfl⟩ | ⟨he, -⟩
        · rw [Option.some.inj (he.symm.trans hfail)]
        · exact nomatch he.symm.trans hfail
      have ho : (e.run limit patience).2 = .failed err :=
        (run_exact e limit patience).1.trans ht.outcome
      exact congrArg Reply.went ho
  | _ => cases hk

/-- What an instruction leaves that has failed, and its call with it. -/
theorem state_of_failure {c : Call} {k : Machine} (hk : k ∈ e.attempts c) {err : MachineError}
    (hf : k.cycle.failure = some err) {m : Machine} (hm : exact.Alike m k.next)
    (hb : Bounded size k) (hrun : k.isRunning = true) :
    (∃ k ∈ e.attempts c, k.Chokes) ∧ m.state = .running ∨
      (¬ ∃ k ∈ e.attempts c, k.Chokes) ∧ m.state = .faulted ∧ err.isFatal = true := by
  have hstate : m.state = k.next.state := hm.state
  by_cases hc : k.Chokes
  · refine .inl ⟨⟨k, hk, hc⟩, ?_⟩
    obtain ⟨t, ht, hlen⟩ := hc
    rw [hstate, ((cycle_of_reads ht).2 hlen).2]
    exact of_decide_eq_true hrun
  · obtain ⟨hfatal, hfaulted⟩ := fatal_cycle hb hc err hf
    refine .inr ⟨?_, hstate.trans hfaulted, hfatal⟩
    rintro ⟨k', hk', t, ht, hlen⟩
    -- Then the call would have failed with a number that is too long.
    have hlong := reply_of_attempt hk' ((cycle_of_reads ht).2 hlen).1
    obtain rfl := Outcome.failed.inj (Reply.went.inj ((reply_of_attempt hk hf).symm.trans hlong))
    cases hfatal

/-- A step that fails. -/
theorem step_of_failed (h : Bounded size e.machine) {err : MachineError}
    (hf : (e.perform .step).2 = .went (.failed err)) :
    e.Escapes .step ∧ (e.perform .step).1.machine.state = .running ∨
      ¬ e.Escapes .step ∧ (e.perform .step).1.machine.state = .faulted ∧ err.isFatal = true := by
  have hno : e.Escapes .step ↔ ∃ m ∈ e.attempts .step, m.Chokes := by
    refine or_iff_right ?_
    rintro ⟨⟨_, _, hc⟩, -⟩
    cases hc
  rw [hno]
  rcases step_tried e with ⟨-, -, event, hstops⟩ | ⟨k, hone, hk, hm, hmachine, hreply⟩
  · cases hstops.symm.trans hf
  · have hmem : k ∈ e.attempts .step := hone ▸ List.mem_singleton_self k
    rw [hmachine]
    exact state_of_failure hmem ((hreply err).1 hf) (.refl _) (h.of_eq hk.memory hk.regs)
      (hk.isRunning.trans hm)

/-- A step that reads a numeral that is too long. -/
theorem step_of_chokes (h : Bounded size e.machine) (hm : e.machine.isRunning = true)
    (hp : e.machine.isPastEnd = false) {t : String} (ht : e.machine.Reads t)
    (hl : maxDigits < (Text.digitsOf t).length) :
    (e.perform .step).2 = .went (.failed (.number (.reading (Text.digitsOf t).length))) ∧
      (e.perform .step).1.machine.state = .running := by
  rcases step_tried e with ⟨-, hpast, -⟩ | ⟨k, -, hk, -, -, hreply⟩
  · exact nomatch hp.symm.trans (hpast hm)
  · obtain ⟨hfail, -⟩ := (cycle_of_reads ht).2 hl
    have hfails := (hreply _).2 ((cycle_exact hk).1.trans hfail)
    refine ⟨hfails, ?_⟩
    rcases step_of_failed h hfails with hstep | ⟨-, -, hfatal⟩
    · exact hstep.2
    · cases hfatal

/-- A run that attempts its first instruction is not in front of memory. -/
theorem pc_of_admits {breakpoints : List Int} {m : Machine} (hr : m.Resumable)
    (ha : Admits breakpoints m.resumes m) : 0 ≤ m.regs.pc := by
  rcases ha with hs | ⟨hh, -⟩
  · have ha := hr.resumes_iff.2 ⟨hs, rfl⟩
    exact (Memory.holds_iff.1 (hr _ ha).2.2).1
  · exact (Memory.holds_iff.1 hh).1

/-- A run that fails without an attempt is in front of memory, if its program counter can be noted. -/
theorem pc_of_verdict {breakpoints : List Int} {last : Ending} {skip spent : Bool} {m : Machine}
    {err : MachineError} (hl : ∀ e, last ≠ .failed e) (hw : Text.IsWritable m.regs.pc)
    (h : verdict breakpoints last skip spent m = some (0, .failed err)) : m.regs.pc < 0 := by
  unfold verdict at h
  split at h
  · rw [endingAtEnd, if_pos hw] at h
    cases h
  · rename_i hp
    split at h
    · exact absurd (congrArg Prod.snd (Option.some.inj h)) (hl err)
    · split at h
      · rename_i hh
        have hh : m.memory.holds m.regs.pc ≠ true := by
          intro ht
          rw [ht, Bool.not_true, Bool.and_false] at hh
          cases hh
        have hp : ¬ (m.memory.size : Int) ≤ m.regs.pc := fun hle => hp (decide_eq_true hle)
        rw [Ne, Memory.holds_iff] at hh
        omega
      · split at h
        · cases h
        · split at h
          · cases h
          · split at h <;> cases h

theorem lastEnding_not_failed (limit : Option Int) (err : MachineError) :
    lastEnding limit ≠ .failed err := by
  cases limit <;> nofun

section

variable {breakpoints : List Int} {last : Ending} {m : Machine} {allowed executed passed : Nat}
  {t : Traced (Run Unit)} {ending : Ending}

/-- A run that fails without an attempt does so at once: behind an instruction that has been carried
    out it would not be in front of memory. -/
theorem front_of_went {skip : Bool} {err : MachineError} (hb : Bounded size m)
    (ht : Went breakpoints last skip allowed executed m t passed 0 (.failed err))
    (hl : ∀ e, last ≠ .failed e) (hm : m.isRunning = true) : passed = 0 ∧ m.regs.pc < 0 := by
  have hbounded := hb.iterate fun i hi => ht.running hm (Nat.le_of_lt hi)
  have hpc := pc_of_verdict hl hbounded.pc ht.ends
  cases passed with
  | zero => exact ⟨rfl, hpc⟩
  | succ p =>
    have hrun : (next^[p] m).isRunning = true := ht.running hm (by omega)
    have hfail := (of_verdict_eq_none (ht.passes p (by omega))).2.1
    have hcell := (Memory.holds_iff.1 (holds_of_completed hfail)).1
    have hge := pc_next_nonneg hrun hcell
    rw [Function.iterate_succ_apply'] at hpc
    omega

/-- A run that attempts an instruction did not begin in front of memory. -/
theorem pc_of_went (ht : Went breakpoints last m.resumes allowed executed m t passed 1 ending)
    (hr : m.Resumable) : 0 ≤ m.regs.pc := by
  have ha : Admits breakpoints m.resumes m := by
    cases passed with
    | zero =>
      obtain ⟨-, hadmits⟩ := (of_verdict_eq_some ht.ends).resolve_left nofun
      simpa using hadmits
    | succ p =>
      obtain ⟨hadmits, -⟩ := of_verdict_eq_none (ht.passes 0 (Nat.succ_pos p))
      simpa using hadmits
  exact pc_of_admits hr ha

end

/-- A run that fails. -/
theorem run_of_failed (h : Bounded size e.machine) (hr : e.machine.Resumable)
    {limit : Option Int} {patience : Nat} {err : MachineError}
    (hf : (e.perform (.run limit patience)).2 = .went (.failed err)) :
    e.Escapes (.run limit patience) ∧
        (e.perform (.run limit patience)).1.machine.state = .running ∨
      ¬ e.Escapes (.run limit patience) ∧
        (e.perform (.run limit patience)).1.machine.state = .faulted ∧ err.isFatal = true := by
  have hf : (e.run limit patience).2.ending = .failed err :=
    congrArg Outcome.ending (Reply.went.inj hf)
  cases hm : e.machine.isRunning with
  | false =>
    rw [(run_idle e limit patience hm).2.2] at hf
    cases hf
  | true =>
    obtain ⟨passed, more, ending, ht, ho⟩ := run_went e limit patience hm
    obtain rfl : ending = .failed err := ho.symm.trans hf
    have hk : exact.Alike (e.run limit patience).1.machine (next^[passed + more] e.machine) :=
      (run_exact e limit patience).2.1.trans ht.machine
    have hrun : ∀ i ≤ passed, (next^[i] e.machine).isRunning = true := fun i => ht.running hm
    have hl : (e.attempts (.run limit patience)).length = passed + more := ht.length
    rcases of_verdict_eq_some ht.ends with rfl | ⟨rfl, -⟩
    · obtain ⟨rfl, hpc⟩ := front_of_went h ht (lastEnding_not_failed _) hm
      refine .inl ⟨.inl ⟨⟨_, _, rfl⟩, hpc⟩, ?_⟩
      have hstate : (e.run limit patience).1.machine.state = e.machine.state := hk.state
      show (e.run limit patience).1.machine.state = _
      rw [hstate]
      exact of_decide_eq_true hm
    · have hpc := pc_of_went ht hr
      have hno : e.Escapes (.run limit patience) ↔
          ∃ m ∈ e.attempts (.run limit patience), m.Chokes :=
        or_iff_right fun hfront => absurd hfront.2 (Int.not_lt.2 hpc)
      have hlast : passed < (e.attempts (.run limit patience)).length := by omega
      have hlike : exact.Alike (e.attempts (.run limit patience))[passed]
          (next^[passed] e.machine) := ht.attempts passed hlast
      have hfail : (next^[passed] e.machine).cycle.failure = some err := by
        rcases of_verdict_eq_attempt ht.ends with ⟨err', hfail, he⟩ | ⟨-, he⟩
        · rw [hfail, Ending.failed.inj he]
        · cases he
      obtain ⟨hsame, hnext⟩ := cycle_exact hlike
      rw [Function.iterate_succ_apply'] at hk
      rw [hno]
      exact state_of_failure (List.getElem_mem hlast) (hsame.trans hfail) (hk.trans hnext.symm)
        ((h.iterate fun i hi => hrun i (by omega)).of_eq hlike.memory hlike.regs)
        (hlike.isRunning.trans (hrun passed (Nat.le_refl _)))

/-- A call that fails leaves the machine faulted, unless it escapes. -/
theorem state_of_failed (h : Bounded size e.machine) (hr : e.machine.Resumable) {c : Call}
    {err : MachineError} (hf : (e.perform c).2 = .went (.failed err)) :
    e.Escapes c ∧ (e.perform c).1.machine.state = .running ∨
      ¬ e.Escapes c ∧ (e.perform c).1.machine.state = .faulted ∧ err.isFatal = true := by
  cases c with
  | step => exact step_of_failed h hf
  | run limit patience => exact run_of_failed h hr hf
  | addBreakpoint | removeBreakpoint | clearBreakpoints => cases hf
  | _ =>
    have hnone := congrArg Reply.ending hf
    rw [ending_of_not_drives e rfl] at hnone
    cases hnone

/-! ## Machines that do not run -/

/-- A step or a run of a machine that does not run says so, and changes nothing. -/
theorem perform_of_not_running (hm : e.machine.isRunning = false) {c : Call}
    (hc : c.executes = true) :
    (e.perform c).2 = .went (.stopped ⟨.notRunning, some e.machine.regs.pc, 0, ""⟩) ∧
      Same e (e.perform c).1 := by
  cases c with
  | step =>
    have hs : e.machine.stepTraced = _ := stepTraced_of_not_running hm
    unfold perform
    rw [step_eq, hs]
    exact ⟨rfl, rfl, rfl, rfl, rfl, rfl⟩
  | run limit patience =>
    obtain ⟨ho, ha, hr⟩ := run_exact e limit patience
    have ht : e.runTraced limit patience = _ := runTraced_of_not_running _ _ _ hm
    rw [ht] at ho ha hr
    exact ⟨congrArg Reply.went ho, view_eq_iff.2 ha, hr, rfl, rfl, rfl⟩
  | _ => cases hc

/-- A machine that does not run stays as it is until it starts over. -/
theorem idle_perform (hm : e.machine.isRunning = false) {c : Call}
    (hs : (e.record c).startsOver = false) :
    (e.perform c).1.machine.isRunning = false ∧
      (e.perform c).1.machine.regs = e.machine.regs := by
  cases hd : c.drives with
  | true =>
    have ha := drive_exact e hd
    have hnone : e.attempts c = [] := by
      refine List.eq_nil_of_length_eq_zero (Nat.eq_zero_of_not_pos fun hpos => ?_)
      have hrun : e.machine.isRunning = true := drive_running e c hpos
      rw [hm] at hrun
      cases hrun
    rw [hnone] at ha
    exact ⟨ha.isRunning.trans hm, ha.regs⟩
  | false =>
    have hset := settled e hd
    unfold record at hs
    revert hset hs
    cases e.perform c with
    | mk e' reply =>
      intro hs hset
      rw [← Bool.not_eq_true, Record.startsOver_iff] at hs
      cases hset with
      | kept _ hk => exact ⟨hk.isRunning.trans hm, hk.regs⟩
      | refused _ _ hk => exact ⟨hk.isRunning.trans hm, hk.regs⟩
      | started => exact absurd (.inr rfl) hs
      | blank => exact absurd (.inr rfl) hs
      | fed => exact ⟨hm, rfl⟩

theorem idle_performAll (hm : e.machine.isRunning = false) {calls : List Call}
    (hs : ∀ r ∈ e.history calls, r.startsOver = false) :
    (e.performAll calls).machine.isRunning = false ∧
      (e.performAll calls).machine.regs = e.machine.regs := by
  induction calls generalizing e with
  | nil => exact ⟨hm, rfl⟩
  | cons c calls ih =>
    obtain ⟨hm', hr⟩ := idle_perform hm (hs _ List.mem_cons_self)
    obtain ⟨hm'', hr'⟩ := ih hm' fun r hr => hs r (List.mem_cons_of_mem _ hr)
    exact ⟨hm'', hr'.trans hr⟩

/-! ## Plain sessions -/

/-- The program counter and the origin of the image are not in front of memory, and all tokens that
    wait can be read. -/
structure Plain (e : Emulator) : Prop where
  pc : 0 ≤ e.machine.regs.pc
  image : ∀ i, e.image = some i → 0 ≤ i.origin
  input : ∀ t ∈ e.machine.input, Text.Legible t

theorem Plain.perform (h : Plain e) {c : Call} (hc : c.Plain) : Plain (e.perform c).1 := by
  cases hd : c.drives with
  | true =>
    have ha := drive_exact e hd
    have hinput : (e.perform c).1.machine.input = _ := ha.input
    refine ⟨?_, image_of_drives e hd ▸ h.image, fun t ht => ?_⟩
    · rw [ha.regs]
      exact pc_iterate_nonneg (fun i hi => drive_running e c hi) h.pc
    · rw [hinput] at ht
      exact h.input t ((input_iterate _ _).subset ht)
  | false =>
    have hs := settled e hd
    revert hs
    cases e.perform c with
    | mk e' reply =>
      intro hs
      cases hs with
      | @kept _ k _ _ hk =>
        have hinput : k.input = e.machine.input := hk.input
        exact ⟨hk.regs ▸ h.pc, h.image, hinput ▸ h.input⟩
      | @refused _ k _ _ _ _ _ hk =>
        have hinput : k.input = e.machine.input := hk.input
        exact ⟨hk.regs ▸ h.pc, h.image, hinput ▸ h.input⟩
      | @started _ k i memory hi hl hk =>
        have hinput : k.input = e.machine.input := hk.input
        have horigin : 0 ≤ i.origin := by
          rcases hi with hi | ⟨-, hi⟩ | ⟨text, -, hi⟩
          · exact hc.1 i hi
          · exact h.image i hi
          · exact (Image.placed_of_parse hi).1
        refine ⟨hk.regs ▸ horigin, ?_, hinput ▸ h.input⟩
        rintro _ ⟨⟩
        exact horigin
      | blank => exact ⟨Int.le_refl 0, h.image, h.input⟩
      | fed tokens =>
        refine ⟨h.pc, h.image, fun t ht => ?_⟩
        rcases List.mem_append.1 ht with ht | ht
        · exact h.input t ht
        · exact hc.2 tokens rfl t ht

/-- Nothing escapes from a plain session. -/
theorem Plain.not_escapes (h : Plain e) (c : Call) : ¬ e.Escapes c := by
  rintro (⟨-, hpc⟩ | ⟨m, hm, t, ht, hlen⟩)
  · exact absurd h.pc (Int.not_le.2 hpc)
  · obtain ⟨i, hi, rfl⟩ := List.mem_iff_getElem.1 hm
    have ha := chain_attempts e c i hi
    have hinput : ((e.attempts c)[i]).input = _ := ha.input
    have hmem := List.mem_of_mem_head? ht.token
    rw [hinput] at hmem
    have hle := h.input t ((input_iterate _ _).subset hmem) ht.numeral
    omega

theorem plain_performAll (h : IsMemorySize size) {input : List String} (limit : Option Int)
    {calls : List Call} (hi : ∀ t ∈ input, Text.Legible t) (hc : ∀ c ∈ calls, c.Plain) :
    Plain ((Emulator.new (.zeros size h) input limit).performAll calls) :=
  performAll_keeps ⟨Int.le_refl 0, nofun, hi⟩ fun _ c hmem he => he.perform (hc c hmem)

/-- A step or a run that fails leaves the machine faulted unless it escapes, and then it leaves the
    machine running. Where it does not escape it has failed with a fault or an address outside
    memory, and until the machine starts over every step and every run says that it does not run
    and changes nothing. Reading a numeral outside the range of words is a fault if the numeral is
    not too long. Nothing escapes if no image begins in front of memory and no token is a numeral
    that is too long. -/
theorem failed_session (size : Nat) (h : IsMemorySize size) (input : List String) (limit : Option Int)
    (calls : List Call) :
    let e := (Emulator.new (.zeros size h) input limit).performAll calls
    (∀ c err, (e.perform c).2 = .went (.failed err) →
      let e' := (e.perform c).1
      (e'.machine.state = .faulted ↔ ¬ e.Escapes c) ∧
      (e.Escapes c → e'.machine.state = .running) ∧
      (¬ e.Escapes c → err.isFatal = true ∧
        ∀ later, (∀ r ∈ e'.history later, r.startsOver = false) → ∀ d, d.executes = true →
          ((e'.performAll later).perform d).2 =
              .went (.stopped ⟨.notRunning, some e'.machine.regs.pc, 0, ""⟩) ∧
            Same (e'.performAll later) ((e'.performAll later).perform d).1)) ∧
    (∀ c, ∀ m ∈ e.attempts c, ∀ t, m.Reads t → Word.inRange (Text.valueOf t) = false →
      (e.perform c).2 = .went (.failed (if (Text.digitsOf t).length ≤ maxDigits then
          .fault ⟨.inputOutOfRange (Text.valueOf t), some m.regs.pc, some Opcode.read.code⟩
        else .number (.reading (Text.digitsOf t).length)))) ∧
    ((∀ t ∈ input, Text.Legible t) → (∀ c ∈ calls, c.Plain) → ∀ c, ¬ e.Escapes c) := by
  intro e
  have hb : Bounded size e.machine := bounded_performAll h input limit calls
  have hr : e.machine.Resumable := resumable_performAll calls
  refine ⟨fun c err hf => ?_, fun c m hm t ht hout => ?_, fun hi hc => ?_⟩
  · intro e'
    rcases state_of_failed hb hr hf with ⟨hesc, hstate⟩ | ⟨hesc, hstate, hfatal⟩
    · refine ⟨iff_of_false ?_ (not_not_intro hesc), fun _ => hstate, fun hn => absurd hesc hn⟩
      rw [show e'.machine.state = .running from hstate]
      nofun
    · refine ⟨iff_of_true hstate hesc, fun hy => absurd hy hesc, fun _ => ⟨hfatal, ?_⟩⟩
      intro later hlater d hd
      have hm : e'.machine.isRunning = false := by
        unfold isRunning
        rw [show e'.machine.state = .faulted from hstate]
        rfl
      obtain ⟨hm', hregs⟩ := idle_performAll hm hlater
      rw [← hregs]
      exact perform_of_not_running hm' hd
  · obtain ⟨hfault, hlong⟩ := cycle_of_reads ht
    refine reply_of_attempt hm ?_
    split
    · exact hfault (by assumption) hout
    · exact (hlong (by omega)).1
  · exact (plain_performAll h limit hi hc).not_escapes

/-- A session in which a token is out of range. -/
theorem failed_session_echo :
    let e := (Emulator.new (.zeros 4 (by decide)) ["99999"] none).performAll [.load echo]
    let e' := (e.perform (.run none 9)).1
    (e.perform (.run none 9)).2 =
        .went (.failed (.fault ⟨.inputOutOfRange 99999, some 1, some 10⟩)) ∧
      e'.machine.state = .faulted ∧
      ((e'.performAll [.feed ["1"], .addBreakpoint 2]).perform .step).2 =
        .went (.stopped ⟨.notRunning, some 1, 0, ""⟩) := by
  intro e e'
  obtain ⟨hfailed, -, hplain⟩ := failed_session 4 (by decide) ["99999"] none [.load echo]
  have hreply : (e.perform (.run none 9)).2 =
      .went (.failed (.fault ⟨.inputOutOfRange 99999, some 1, some 10⟩)) := by
    decide +kernel
  have hesc : ¬ e.Escapes (.run none 9) := by
    refine hplain (fun t ht => ?_) (fun c hc => ?_) _
    · obtain rfl := List.mem_singleton.1 ht
      exact fun _ => by decide
    · obtain rfl := List.mem_singleton.1 hc
      refine ⟨?_, nofun⟩
      rintro _ ⟨⟩
      decide
  have hnone : (e'.history [.feed ["1"], .addBreakpoint 2]).all (fun r => !r.startsOver) = true := by
    decide +kernel
  have hlater : ∀ r ∈ e'.history [.feed ["1"], .addBreakpoint 2], r.startsOver = false := by
    intro r hr
    simpa using List.all_eq_true.1 hnone r hr
  obtain ⟨hstate, -, hidle⟩ := hfailed (.run none 9) _ hreply
  exact ⟨hreply, hstate.2 hesc, ((hidle hesc).2 _ hlater .step rfl).1⟩

/-- An image that begins in front of memory. -/
def front : Image := ⟨["4300"], -1, .empty⟩

/-- A numeral of `n` digits. -/
def ones (n : Nat) : String := String.ofList (List.replicate n '1')

theorem trim_ones (n : Nat) : Text.trim (ones n).toList = List.replicate n '1' := by
  unfold ones
  rw [String.toList_ofList]
  refine Text.trim_of_not_blank fun c hc => ?_
  obtain rfl := List.eq_of_mem_replicate hc
  decide

theorem isDigits_ones (n : Nat) : Text.isDigits (List.replicate (n + 1) '1') = true := by
  have hdigit : '1'.isDigit = true := by decide
  simp [Text.isDigits, hdigit]

theorem length_digitsOf_ones (n : Nat) : (Text.digitsOf (ones (n + 1))).length = n + 1 := by
  unfold Text.digitsOf
  rw [trim_ones, Text.splitSign_of_isDigits (isDigits_ones n), List.length_replicate]

theorem isNumeral_ones (n : Nat) : Text.isNumeral (Text.trim (ones (n + 1)).toList) = true := by
  unfold Text.isNumeral
  rw [trim_ones, Text.splitSign_of_isDigits (isDigits_ones n)]
  exact isDigits_ones n

/-- An image that reads a token and begins in memory. -/
def asking : Image := ⟨["1000"], 0, .empty⟩

theorem chokes_asking (n : Nat) (hn : maxDigits ≤ n) :
    let e := (Emulator.new (.zeros 100 (by decide)) [ones (n + 1)] none).performAll [.load asking]
    (e.perform .step).2 = .went (.failed (.number (.reading (n + 1)))) ∧
      (e.perform .step).1.machine.state = .running := by
  intro e
  have hreads : e.machine.Reads (ones (n + 1)) :=
    ⟨⟨1000, by rfl, by decide⟩, rfl, isNumeral_ones n⟩
  have hlen := length_digitsOf_ones n
  have hb : Bounded 100 e.machine := bounded_performAll (by decide) _ _ _
  have hstep := step_of_chokes hb rfl rfl hreads (by omega)
  rw [hlen] at hstep
  exact hstep

/-- A run in front of memory fails and leaves the machine running, and so does reading a numeral
    that is too long. -/
theorem failed_session_front :
    let e := (Emulator.new (.zeros 100 (by decide)) [] none).performAll [.load front]
    let k := (Emulator.new (.zeros 100 (by decide)) [ones (maxDigits + 1)] none).performAll
      [.load asking]
    ((e.perform (.run none 9)).2 = .went (.failed (.address (-1) 100)) ∧
        (e.perform (.run none 9)).1.machine.state = .running) ∧
      (k.perform .step).2 = .went (.failed (.number (.reading (maxDigits + 1)))) ∧
        (k.perform .step).1.machine.state = .running :=
  ⟨by decide +kernel, chokes_asking maxDigits (Nat.le_refl _)⟩

end Emulator

end DecimalMachine
