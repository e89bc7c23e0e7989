import Mathlib.Algebra.Ring.Int.Defs
import DecimalMachine.Proofs.Ranges
import DecimalMachine.Proofs.Resumption
/-
  Schedules: what a machine shows does not depend on how its instructions are divided into steps
  and runs. Any calls that drive the machine amount to attempting the cycle as many times as they
  attempt it together (`schedule`), a run that reaches its limit can be continued by another
  one (`run_add`), and breakpoints only interrupt (`interrupted_final`). What happens next is the
  machine's `fate`, on which neither breakpoints nor limits have any influence.
-/
namespace DecimalMachine

namespace Machine

open Likeness (exact)

/-! ## Views -/

/-- What a machine shows: all of it but its notes and the address to resume at. -/
structure View where
  memory : Memory
  regs : Registers
  state : RunState
  input : List String
  output : Array String
  warnings : Array String
  cycles : Nat
  written : List String

def view (m : Machine) : View :=
  ⟨m.memory, m.regs, m.state, m.input, m.output, m.warnings, m.cycles, m.written⟩

theorem view_eq_iff {m m' : Machine} : m.view = m'.view ↔ exact.Alike m m' := by
  constructor
  · intro h
    obtain ⟨h1, h2, h3, h4, h5, h6, h7, h8⟩ := View.mk.inj h
    exact ⟨h1, h2, h3, h4, h5, h6, h7, h8⟩
  · intro h
    have hm : m.memory = m'.memory := h.memory
    have hi : m.input = m'.input := h.input
    unfold view
    rw [hm, hi, h.regs, h.state, h.output, h.warnings, h.cycles, h.written]

/-! ## Counting cycles -/

/-- The machines are those that the cycle leads to from `m`, one after the other. -/
def Chain (m : Machine) (ms : List Machine) : Prop :=
  ∀ i (h : i < ms.length), exact.Alike ms[i] (next^[i] m)

theorem Chain.append {m m' : Machine} {ms ms' : List Machine} (h : Chain m ms)
    (hm : exact.Alike m' (next^[ms.length] m)) (h' : Chain m' ms') : Chain m (ms ++ ms') := by
  intro i hi
  rw [List.getElem_append]
  split
  · exact h i _
  · rename_i hl
    have hi' : i - ms.length < ms'.length := by
      rw [List.length_append] at hi
      omega
    have hn : next^[i] m = next^[i - ms.length] (next^[ms.length] m) := by
      rw [← Function.iterate_add_apply, Nat.sub_add_cancel (by omega)]
    rw [hn]
    exact (h' _ hi').trans (iterate_exact hm _)

theorem Chain.failure {m k : Machine} {ms : List Machine} (h : Chain m ms) (hk : k ∈ ms) :
    ∃ i < ms.length, k.cycle.failure = (next^[i] m).cycle.failure := by
  obtain ⟨i, hi, rfl⟩ := List.getElem_of_mem hk
  exact ⟨i, hi, (cycle_exact (h i hi)).1⟩

/-- The completed cycles are those that are counted. -/
theorem Chain.cycles {m : Machine} {ms : List Machine} (h : Chain m ms) :
    (next^[ms.length] m).cycles = m.cycles + ms.countP fun k => k.cycle.failure.isNone := by
  induction ms generalizing m with
  | nil => rfl
  | cons k ms ih =>
    have hk : k.cycle.failure = m.cycle.failure := (cycle_exact (h 0 (Nat.succ_pos _))).1
    have hms : Chain m.next ms := by
      intro i hi
      exact h (i + 1) (Nat.succ_lt_succ hi)
    rw [List.length_cons, Function.iterate_succ_apply, ih hms, next_cycles, List.countP_cons, hk]
    omega

theorem Stepped.chain {m : Machine} {t : Traced (Machine × Outcome)} (h : Stepped m t) :
    Chain m t.attempts := by
  cases h with
  | idle => nofun
  | past => nofun
  | tried _ _ hk =>
    intro i hi
    obtain rfl : i = 0 := by simpa using hi
    exact hk

/-- A step that stops has completed what it has attempted, and says how much that was. -/
theorem Stepped.stopped {m : Machine} {t : Traced (Machine × Outcome)} (h : Stepped m t)
    {event : StopEvent} (he : t.result.2 = .stopped event) :
    event.cycles = t.attempts.length ∧ ∀ k ∈ t.attempts, k.cycle.failure = none := by
  cases h with
  | idle => cases he; exact ⟨rfl, nofun⟩
  | past => cases he; exact ⟨rfl, nofun⟩
  | @tried k o _ _ _ _ ho =>
    obtain rfl : o = .stopped event := he
    cases hf : k.cycle.failure with
    | some err => rw [hf] at ho; cases ho
    | none =>
      rw [hf] at ho
      cases ho
      refine ⟨rfl, fun k' hk' => ?_⟩
      obtain rfl : k' = k := by simpa using hk'
      exact hf

theorem Went.chain {breakpoints : List Int} {last : Ending} {skip : Bool}
    {allowed executed : Nat} {m : Machine} {t : Traced (Run Unit)} {passed more : Nat}
    {ending : Ending} (h : Went breakpoints last skip allowed executed m t passed more ending) :
    Chain m t.attempts := h.attempts

/-- A run that stops has completed what it has attempted, and says how much that was. -/
theorem Went.stopped {breakpoints : List Int} {last : Ending} {skip : Bool}
    {allowed executed : Nat} {m : Machine} {t : Traced (Run Unit)} {passed more : Nat}
    {ending : Ending} (h : Went breakpoints last skip allowed executed m t passed more ending)
    {event : StopEvent} (he : t.result.outcome = .stopped event) :
    event.cycles = executed + t.attempts.length ∧ ∀ k ∈ t.attempts, k.cycle.failure = none := by
  rw [h.outcome] at he
  cases ending with
  | failed err => cases he
  | unfinished => cases he
  | stopped reason =>
    obtain rfl := Outcome.stopped.inj he
    constructor
    · rw [h.length, ← Int.natCast_add, ← Nat.add_assoc]
      rfl
    · intro k hk
      obtain ⟨i, hi, hf⟩ := h.chain.failure hk
      rw [hf]
      have hl := h.length
      have hm := h.more_le
      by_cases hp : i < passed
      · exact (of_verdict_eq_none (h.passes i hp)).2.1
      · obtain rfl : i = passed := by omega
        obtain rfl : more = 1 := by omega
        rcases of_verdict_eq_attempt h.ends with ⟨err, -, hx⟩ | ⟨hx, -⟩
        · cases hx
        · exact hx

end Machine

/-- The instructions that have been attempted, call after call. -/
def tried (history : List Record) : List Machine := history.flatMap Record.attempts

/-- The cycles that a call reports, or that it has completed when it reports none. -/
def Record.counted (r : Record) : Int :=
  match r.reply with
  | .went (.stopped event) => event.cycles
  | _ => r.completed

namespace Emulator

open Machine Likeness

theorem chain_attempts (e : Emulator) (c : Call) : Chain e.machine (e.attempts c) := by
  cases c with
  | step => exact (stepped e.machine).chain
  | run limit patience =>
    show Chain e.machine (e.runTraced limit patience).attempts
    cases hm : e.machine.isRunning with
    | false =>
      rw [(run_idle e limit patience hm).1]
      nofun
    | true =>
      obtain ⟨_, _, _, ht, -⟩ := run_went e limit patience hm
      exact ht.chain
  | _ => nofun

theorem stopped_cycles {e : Emulator} {c : Call} {event : StopEvent} (hc : c.drives = true)
    (h : (e.perform c).2 = .went (.stopped event)) :
    event.cycles = (e.attempts c).length ∧ ∀ k ∈ e.attempts c, k.cycle.failure = none := by
  cases c with
  | step =>
    have he : e.machine.stepTraced.result.2 = .stopped event := by
      have h : Reply.went e.step.2 = .went (.stopped event) := h
      rw [step_eq] at h
      exact Reply.went.inj h
    exact (stepped e.machine).stopped he
  | run limit patience =>
    have he : (e.runTraced limit patience).result.outcome = .stopped event := by
      rw [← (run_exact e limit patience).1]
      exact Reply.went.inj h
    show event.cycles = ((e.runTraced limit patience).attempts.length : Nat) ∧
      ∀ k ∈ (e.runTraced limit patience).attempts, k.cycle.failure = none
    cases hm : e.machine.isRunning with
    | false =>
      have ht : e.runTraced limit patience = _ := runTraced_of_not_running _ _ _ hm
      rw [ht] at he ⊢
      cases he
      exact ⟨rfl, nofun⟩
    | true =>
      obtain ⟨_, _, _, ht, -⟩ := run_went e limit patience hm
      have hs := ht.stopped he
      rwa [Int.natCast_zero, Int.zero_add] at hs
  | addBreakpoint | removeBreakpoint | clearBreakpoints => cases h
  | _ => cases hc

/-- The machine counts what a call reports, or what it has completed. -/
theorem counted_record (e : Emulator) {c : Call} (hc : c.drives = true) :
    ((e.perform c).1.machine.cycles : Int) = e.machine.cycles + (e.record c).counted := by
  have hcycles : (e.perform c).1.machine.cycles = e.machine.cycles + (e.record c).completed :=
    (drive_exact e hc).cycles.trans (chain_attempts e c).cycles
  have hcounted : (e.record c).counted = (e.record c).completed := by
    unfold Record.counted
    split
    · rename_i event h
      obtain ⟨hl, hf⟩ := stopped_cycles hc h
      rw [hl]
      refine congrArg _ (List.countP_eq_length.2 fun k hk => ?_).symm
      rw [hf k hk]
      rfl
    · rfl
  rw [hcycles, hcounted, Int.natCast_add]

/-- Calls that drive the machine are cycles attempted one after the other: none is lost, made
    twice or left out between one call and the next. -/
theorem schedule (e : Emulator) {cs : List Call} (hd : ∀ c ∈ cs, c.drives = true) :
    exact.Alike (e.performAll cs).machine (next^[(tried (e.history cs)).length] e.machine) ∧
      Chain e.machine (tried (e.history cs)) ∧
      ((e.performAll cs).machine.cycles : Int) =
        e.machine.cycles + ((e.history cs).map Record.counted).sum := by
  induction cs generalizing e with
  | nil => exact ⟨.refl _, nofun, (Int.add_zero _).symm⟩
  | cons c cs ih =>
    have hc := hd c List.mem_cons_self
    obtain ⟨ha, hch, hcy⟩ := ih (e.perform c).1 (fun d hd' => hd d (List.mem_cons_of_mem c hd'))
    have hfirst := drive_exact e hc
    have ht : tried (e.history (c :: cs)) =
      e.attempts c ++ tried ((e.perform c).1.history cs) := rfl
    rw [ht]
    refine ⟨?_, (chain_attempts e c).append hfirst hch, ?_⟩
    · rw [List.length_append, Nat.add_comm, Function.iterate_add_apply]
      exact ha.trans (iterate_exact hfirst _)
    · have hs : ((e.history (c :: cs)).map Record.counted).sum =
          (e.record c).counted + (((e.perform c).1.history cs).map Record.counted).sum := rfl
      rw [performAll_cons, hcy, counted_record e hc, hs, Int.add_assoc]

/-- No calls attempt an instruction of a machine that does not run. -/
theorem running_of_tried (e : Emulator) {cs : List Call} (hd : ∀ c ∈ cs, c.drives = true) {i : Nat}
    (hi : i < (tried (e.history cs)).length) : (next^[i] e.machine).isRunning = true := by
  induction cs generalizing e i with
  | nil => cases hi
  | cons c cs ih =>
    have ht : tried (e.history (c :: cs)) =
      e.attempts c ++ tried ((e.perform c).1.history cs) := rfl
    rw [ht, List.length_append] at hi
    by_cases hc : i < (e.attempts c).length
    · exact drive_running e c hc
    · have hfirst := drive_exact e (hd c List.mem_cons_self)
      have hrest := ih (e.perform c).1 (fun d hd' => hd d (List.mem_cons_of_mem c hd'))
        (show i - (e.attempts c).length < _ by omega)
      rw [(iterate_exact hfirst _).isRunning, ← Function.iterate_add_apply,
        Nat.sub_add_cancel (by omega)] at hrest
      exact hrest

end Emulator

/-! ## First answers -/

/-- The first answer in a sequence. -/
def FirstAt {α : Type} (f : Nat → Option α) (p : Nat) (x : α) : Prop :=
  (∀ i < p, f i = none) ∧ f p = some x

theorem FirstAt.unique {α : Type} {f : Nat → Option α} {p q : Nat} {x y : α}
    (hp : FirstAt f p x) (hq : FirstAt f q y) : p = q ∧ x = y := by
  have hpq : p = q := by
    rcases Nat.lt_trichotomy p q with h | h | h
    · have hn := hq.1 p h
      rw [hp.2] at hn
      cases hn
    · exact h
    · have hn := hp.1 q h
      rw [hq.2] at hn
      cases hn
  subst hpq
  exact ⟨rfl, Option.some.inj (hp.2.symm.trans hq.2)⟩

namespace Machine

open Likeness (exact)

/-- A run attempts no more than it is allowed. -/
theorem Went.length_le {breakpoints : List Int} {last : Ending} {skip : Bool}
    {allowed executed : Nat} {m : Machine} {t : Traced (Run Unit)} {passed more : Nat}
    {ending : Ending}
    (h : Went breakpoints last skip allowed executed m t passed more ending) :
    passed + more ≤ allowed := by
  have hle := h.within
  have hmore := h.more_le
  rcases verdict_cases breakpoints last (skip && passed = 0) (passed = allowed) (next^[passed] m)
    with ⟨_, he⟩ | ⟨-, hne, -⟩
  · rw [h.ends] at he
    obtain ⟨rfl, -⟩ := Prod.mk.inj (Option.some.inj he)
    exact hle
  · have hne : passed ≠ allowed := of_decide_eq_false hne
    omega

theorem Went.first {breakpoints : List Int} {last : Ending} {skip : Bool}
    {allowed executed : Nat} {m : Machine} {t : Traced (Run Unit)} {passed more : Nat}
    {ending : Ending} (h : Went breakpoints last skip allowed executed m t passed more ending) :
    FirstAt (fun i => verdict breakpoints last (skip && i = 0) (i = allowed) (next^[i] m)) passed
      (more, ending) := by
  refine ⟨fun i hi => ?_, h.ends⟩
  have hne : i ≠ allowed := by
    have := h.within
    omega
  dsimp only
  rw [decide_eq_false hne]
  exact h.passes i hi

end Machine

namespace Emulator

open Machine Likeness

/-- Behind a run that has reached its limit, the next one resumes at a breakpoint just in case the
    first one would have, and has attempted nothing. -/
theorem resumes_of_limit {e : Emulator} (h : e.machine.Resumable) {limit : Option Int}
    {patience : Nat} (hstop : (e.run limit patience).2.ending = .stopped .cycleLimit) :
    (e.run limit patience).1.machine.resumes =
      (e.machine.resumes && decide (e.attempts (.run limit patience) = [])) := by
  have hr := drive_resume h (c := .run limit patience) rfl
  have hn : (e.perform (.run limit patience)).2.ending ≠ some (.stopped .breakpoint) := by
    intro hb
    cases hstop.symm.trans (Option.some.inj hb)
  rw [if_neg hn] at hr
  have hr : (e.run limit patience).1.machine.resume = _ := hr
  unfold resumes
  by_cases ht : e.attempts (.run limit patience) = []
  · have ha := drive_exact e (c := .run limit patience) rfl
    rw [ht] at ha
    have hregs : (e.run limit patience).1.machine.regs = e.machine.regs := ha.regs
    rw [if_pos ht] at hr
    rw [hr, hregs, decide_eq_true ht, Bool.and_true]
  · rw [if_neg ht] at hr
    rw [hr, decide_eq_false ht, Bool.and_false]
    rfl

/-- A run that reaches its limit can be continued: it goes on as one with a greater limit. -/
theorem run_add {e : Emulator} (h : e.machine.Resumable) {a b : Int} (ha : 0 ≤ a) (hb : 0 ≤ b)
    (p q r : Nat) (hstop : (e.run (some a) p).2.ending = .stopped .cycleLimit) :
    let twice := (e.run (some a) p).1.run (some b) q
    let once := e.run (some (a + b)) r
    exact.Alike twice.1.machine once.1.machine ∧ twice.2.ending = once.2.ending := by
  intro twice once
  have hrun : e.machine.isRunning = true := by
    cases hm : e.machine.isRunning with
    | true => rfl
    | false =>
      rw [(run_idle e (some a) p hm).2.2] at hstop
      cases hstop
  obtain ⟨p₁, k₁, x₁, h₁, he₁⟩ := run_went e (some a) p hrun
  obtain rfl : x₁ = .stopped .cycleLimit := he₁.symm.trans hstop
  obtain ⟨rfl, hp₁⟩ := of_verdict_eq_limit h₁.ends
  have hp₁ : p₁ = a.toNat := of_decide_eq_true hp₁
  let first := (e.run (some a) p).1
  have hfirst : exact.Alike first.machine (next^[p₁] e.machine) :=
    (run_exact e (some a) p).2.1.trans h₁.machine
  have hrun₁ : first.machine.isRunning = true :=
    hfirst.isRunning.trans (h₁.running hrun (Nat.le_refl _))
  have hskip : ∀ j : Nat, (first.machine.resumes && decide (j = 0)) =
      (e.machine.resumes && decide (j + p₁ = 0)) := by
    intro j
    have hl : (e.attempts (.run (some a) p)).length = p₁ := h₁.length
    have hj : (e.attempts (.run (some a) p) = [] ∧ j = 0) ↔ j + p₁ = 0 := by
      rw [← List.length_eq_zero_iff, hl]
      omega
    rw [show first.machine.resumes = _ from resumes_of_limit h hstop, Bool.and_assoc,
      ← Bool.decide_and, decide_eq_decide.2 hj]
  obtain ⟨p₂, k₂, x₂, h₂, he₂⟩ := run_went first (some b) q hrun₁
  obtain ⟨p₃, k₃, x₃, h₃, he₃⟩ := run_went e (some (a + b)) r hrun
  have hmove : ∀ j, exact.Alike (next^[j] first.machine) (next^[j + p₁] e.machine) := by
    intro j
    rw [Function.iterate_add_apply]
    exact iterate_exact hfirst j
  have hboth : FirstAt (fun i => verdict e.breakpoints (.stopped .cycleLimit)
      (e.machine.resumes && i = 0) (i = (a + b).toNat) (next^[i] e.machine)) (p₂ + p₁)
      (k₂, x₂) := by
    have hsum : (a + b).toNat = b.toNat + p₁ := by omega
    have hlater : ∀ j, verdict first.breakpoints (.stopped .cycleLimit)
        (first.machine.resumes && j = 0) (j = b.toNat) (next^[j] first.machine) =
        verdict e.breakpoints (.stopped .cycleLimit) (e.machine.resumes && j + p₁ = 0)
          (j + p₁ = (a + b).toNat) (next^[j + p₁] e.machine) := by
      intro j
      have hj : decide (j = b.toNat) = decide (j + p₁ = (a + b).toNat) := by
        rw [hsum]
        exact decide_eq_decide.2 (by omega)
      rw [verdict_congr (hmove j), hskip, hj]
      rfl
    obtain ⟨hpass, hend⟩ := h₂.first
    refine ⟨fun i hi => ?_, (hlater p₂).symm.trans hend⟩
    by_cases hi₁ : i < p₁
    · have hne : ¬ i = (a + b).toNat := by omega
      dsimp only
      rw [decide_eq_false hne]
      exact h₁.passes i hi₁
    · obtain ⟨j, rfl⟩ := Nat.exists_eq_add_of_le' (Nat.le_of_not_lt hi₁)
      exact (hlater j).symm.trans (hpass j (by omega))
  obtain ⟨hp, hx⟩ := hboth.unique h₃.first
  obtain ⟨rfl, rfl⟩ := Prod.mk.inj hx
  refine ⟨?_, he₂.trans he₃.symm⟩
  have htwice : exact.Alike twice.1.machine (next^[p₂ + k₂] first.machine) :=
    (run_exact first (some b) q).2.1.trans h₂.machine
  have honce : exact.Alike once.1.machine (next^[p₃ + k₂] e.machine) :=
    (run_exact e (some (a + b)) r).2.1.trans h₃.machine
  have hn : p₃ + k₂ = p₂ + k₂ + p₁ := by omega
  rw [hn] at honce
  exact (htwice.trans (hmove _)).trans honce.symm

end Emulator

namespace Machine

open Likeness (exact)

/-! ## Fates -/

/-- The ends that a program comes to by itself, and no breakpoint, limit or step brings about. -/
def Ending.isFinal : Ending → Bool
  | .stopped .halted | .stopped .endOfMemory | .failed _ => true
  | _ => false

/-- The error of an end that is a failure. -/
def Ending.failure? : Ending → Option MachineError
  | .failed e => some e
  | _ => none

/-- What the next instruction leads to when nothing stands in its way: none to the one behind it,
    otherwise to an end, with one attempt or without. -/
def fate (m : Machine) : Option (Nat × Ending) :=
  if m.isPastEnd then some (0, .stopped .endOfMemory)
  else
    match m.cycle.failure with
    | some e => some (1, .failed e)
    | none => if m.next.state = .halted then some (1, .stopped .halted) else none

theorem fate_congr {m m' : Machine} (h : exact.Alike m m') : fate m = fate m' := by
  obtain ⟨hf, hn⟩ := cycle_exact h
  unfold fate
  rw [h.isPastEnd, hf, hn.state]

/-- A machine that goes on has completed its instruction, and has not halted. -/
theorem of_fate_eq_none {m : Machine} (h : m.fate = none) :
    m.cycle.failure = none ∧ m.next.state ≠ .halted := by
  unfold fate at h
  split at h
  · cases h
  · split at h
    · cases h
    · split at h
      · cases h
      · exact ⟨by assumption, by assumption⟩

/-- A machine comes to an end behind its memory, or with an instruction that fails or halts. -/
theorem of_fate_eq_some {m : Machine} {more : Nat} {ending : Ending}
    (h : m.fate = some (more, ending)) :
    more = 0 ∧ ending = .stopped .endOfMemory ∧ m.isPastEnd = true ∨
      more = 1 ∧ m.isPastEnd = false ∧ m.cycle.failure = ending.failure? ∧
        ending.isFinal = true := by
  unfold fate at h
  split at h
  · obtain ⟨rfl, rfl⟩ := Prod.mk.inj (Option.some.inj h)
    exact .inl ⟨rfl, rfl, by assumption⟩
  · rename_i hp
    have hp : m.isPastEnd = false := Bool.eq_false_iff.2 hp
    split at h
    · rename_i e he
      obtain ⟨rfl, rfl⟩ := Prod.mk.inj (Option.some.inj h)
      exact .inr ⟨rfl, hp, he, rfl⟩
    · rename_i he
      split at h
      · obtain ⟨rfl, rfl⟩ := Prod.mk.inj (Option.some.inj h)
        exact .inr ⟨rfl, hp, he, rfl⟩
      · cases h

/-- What becomes of a step that attempts an instruction is what the machine comes to by it. -/
theorem fate_of_tried {m : Machine} {o : Outcome} (hp : m.isPastEnd = false)
    (ho : match m.cycle.failure with
      | some e => o = .failed e
      | none => o = .stopped
          (m.next.stop (if m.next.state = .halted then .halted else .step) 1)) :
    match m.fate with
    | some (more, ending) => more = 1 ∧ ending.isFinal = true ∧ o.ending = ending
    | none => o.ending = .stopped .step := by
  unfold fate
  rw [hp, if_neg Bool.false_ne_true]
  cases hf : m.cycle.failure with
  | some err =>
    rw [hf] at ho
    rw [show o = .failed err from ho]
    exact ⟨rfl, rfl, rfl⟩
  | none =>
    rw [hf] at ho
    rw [show o = .stopped _ from ho]
    by_cases hh : m.next.state = .halted
    · rw [if_pos hh, if_pos hh]
      exact ⟨rfl, rfl, rfl⟩
    · rw [if_neg hh, if_neg hh]
      rfl

theorem verdict_eq_fate {breakpoints : List Int} (last : Ending) {skip : Bool} {m : Machine}
    (hp : m.isPastEnd = false) (ha : Admits breakpoints skip m) :
    verdict breakpoints last skip false m = m.fate := by
  rw [verdict_of_admits last hp ha]
  unfold fate
  rw [hp]
  rfl

/-- Where a run goes on, the machine goes on. -/
theorem fate_of_verdict_eq_none {breakpoints : List Int} {last : Ending} {skip spent : Bool}
    {m : Machine} (h : verdict breakpoints last skip spent m = none) : m.fate = none := by
  rcases verdict_cases breakpoints last skip spent m with ⟨ending, he⟩ | ⟨hp, rfl, ha⟩
  · rw [h] at he
    cases he
  · rw [← verdict_eq_fate last hp ha]
    exact h

theorem Sound.admits {size : Nat} {m : Machine} (hs : m.Sound size) (hp : m.isPastEnd = false)
    (skip : Bool) : Admits [] skip m := by
  have hlt : ¬ (m.memory.size : Int) ≤ m.regs.pc := of_decide_eq_false hp
  exact .inr ⟨Memory.holds_iff.2 ⟨hs.pc_nonneg, by omega⟩, rfl⟩

/-- A sound machine stops at the end of memory. -/
theorem Sound.endingAtEnd_eq {size : Nat} {m : Machine} (hs : m.Sound size) :
    m.endingAtEnd = .stopped .endOfMemory := if_pos hs.isWritable_pc

theorem endingAtEnd_isFinal (m : Machine) : m.endingAtEnd.isFinal = true := by
  unfold endingAtEnd
  split <;> rfl

/-- An end that is final is the one that the machine comes to by itself. -/
theorem Sound.fate_of_final {size : Nat} {m : Machine} (hs : m.Sound size)
    {breakpoints : List Int} {last : Ending} {skip spent : Bool} {more : Nat} {ending : Ending}
    (hl : last.isFinal = false) (hx : ending.isFinal = true)
    (h : verdict breakpoints last skip spent m = some (more, ending)) :
    m.fate = some (more, ending) := by
  cases hp : m.isPastEnd with
  | true =>
    unfold verdict at h
    unfold fate
    rw [hp] at h ⊢
    rw [if_pos rfl, hs.endingAtEnd_eq] at h
    exact h
  | false =>
    have hh : m.memory.holds m.regs.pc = true := by
      rcases hs.admits hp false with h | ⟨h, -⟩
      · cases h
      · exact h
    cases spent with
    | true =>
      unfold verdict at h
      rw [hp] at h
      obtain ⟨-, rfl⟩ := Prod.mk.inj (Option.some.inj h)
      rw [hl] at hx
      cases hx
    | false =>
      have hadmits : Admits breakpoints skip m := by
        cases skip with
        | true => exact .inl rfl
        | false =>
          cases hb : breakpoints.contains m.regs.pc with
          | false => exact .inr ⟨hh, hb⟩
          | true =>
            unfold verdict at h
            rw [hp, hh, hb] at h
            obtain ⟨-, rfl⟩ := Prod.mk.inj (Option.some.inj h)
            cases hx
      rw [← verdict_eq_fate last hp hadmits]
      exact h

/-- Without breakpoints a run ends where the machine does, or with all that it may do. -/
theorem of_verdict_not_final {m : Machine} {last ending : Ending} {skip spent : Bool} {more : Nat}
    (h : verdict [] last skip spent m = some (more, ending)) (hx : ending.isFinal = false) :
    more = 0 ∧ spent = true ∧ ending = last ∧ m.isPastEnd = false := by
  unfold verdict at h
  split at h
  · obtain ⟨-, rfl⟩ := Prod.mk.inj (Option.some.inj h)
    rw [m.endingAtEnd_isFinal] at hx
    cases hx
  · rename_i hp
    split at h
    · obtain ⟨rfl, rfl⟩ := Prod.mk.inj (Option.some.inj h)
      exact ⟨rfl, by assumption, rfl, Bool.eq_false_iff.2 hp⟩
    · split at h
      · obtain ⟨-, rfl⟩ := Prod.mk.inj (Option.some.inj h)
        cases hx
      · rw [List.contains_nil, Bool.and_false, if_neg Bool.false_ne_true] at h
        split at h
        · obtain ⟨-, rfl⟩ := Prod.mk.inj (Option.some.inj h)
          cases hx
        · split at h
          · obtain ⟨-, rfl⟩ := Prod.mk.inj (Option.some.inj h)
            cases hx
          · cases h

/-- The machine carries out `passed` instructions when nothing stands in their way, and then
    comes to an end. -/
abbrev Fated (m : Machine) (passed more : Nat) (ending : Ending) : Prop :=
  FirstAt (fun i => fate (next^[i] m)) passed (more, ending)

theorem Fated.unique {m : Machine} {passed passed' more more' : Nat} {ending ending' : Ending}
    (h : Fated m passed more ending) (h' : Fated m passed' more' ending') :
    passed = passed' ∧ more = more' ∧ ending = ending' :=
  ⟨(FirstAt.unique h h').1, Prod.mk.inj (FirstAt.unique h h').2⟩

/-- The end comes behind all instructions that the machine goes on from. -/
theorem Fated.le {m : Machine} {k passed more : Nat} {ending : Ending}
    (h : Fated m passed more ending) (hk : ∀ i < k, fate (next^[i] m) = none) : k ≤ passed := by
  by_contra hlt
  exact nomatch (hk passed (Nat.not_le.1 hlt)).symm.trans h.2

/-- Behind instructions that are carried out, the end that is to come stays the same. -/
theorem Fated.behind {m m' : Machine} {k passed more : Nat} {ending : Ending}
    (hk : ∀ i < k, fate (next^[i] m) = none) (hm : exact.Alike m' (next^[k] m))
    (h : Fated m' passed more ending) : Fated m (passed + k) more ending := by
  have hmove : ∀ j, fate (next^[j] m') = fate (next^[j + k] m) := by
    intro j
    rw [Function.iterate_add_apply]
    exact fate_congr (iterate_exact hm j)
  obtain ⟨hpass, hend⟩ := h
  refine ⟨fun i hi => ?_, (hmove passed).symm.trans hend⟩
  by_cases hik : i < k
  · exact hk i hik
  · obtain ⟨j, rfl⟩ := Nat.exists_eq_add_of_le' (Nat.le_of_not_lt hik)
    exact (hmove j).symm.trans (hpass j (by omega))

theorem isRunning_of_fates {m : Machine} (hm : m.isRunning = true) {k : Nat}
    (hk : ∀ i < k, fate (next^[i] m) = none) : ∀ i ≤ k, (next^[i] m).isRunning = true := by
  intro i hi
  induction i with
  | zero => exact hm
  | succ i ih =>
    obtain ⟨hf, hh⟩ := of_fate_eq_none (hk i (by omega))
    rw [Function.iterate_succ_apply']
    exact isRunning_next (ih (by omega)) hf hh

/-- A step does what the machine does by itself. -/
theorem Stepped.fate_eq {m : Machine} {t : Traced (Machine × Outcome)} (h : Stepped m t)
    (hm : m.isRunning = true) :
    t.attempts.length ≤ 1 ∧
      fate m = if t.result.2.ending.isFinal then some (t.attempts.length, t.result.2.ending)
        else none := by
  cases h with
  | idle hn =>
    rw [hm] at hn
    cases hn
  | past _ hp =>
    refine ⟨Nat.zero_le _, ?_⟩
    unfold fate
    rw [hp]
    rfl
  | @tried k o _ hp hk _ ho =>
    refine ⟨Nat.le_refl _, ?_⟩
    have h := fate_of_tried (hk.isPastEnd.trans hp) ho
    rw [← fate_congr hk]
    cases hf : k.fate with
    | none =>
      rw [hf] at h
      rw [show o.ending = .stopped .step from h]
      rfl
    | some r =>
      obtain ⟨more, ending⟩ := r
      rw [hf] at h
      obtain ⟨rfl, hfinal, rfl⟩ := h
      exact (if_pos hfinal).symm

end Machine

/-- The answer of a call that has come to an end that is final. -/
def Reply.isFinal (r : Reply) : Bool := r.ending.any Machine.Ending.isFinal

namespace Emulator

open Machine Likeness

theorem lastEnding_not_final (limit : Option Int) : (lastEnding limit).isFinal = false := by
  cases limit <;> rfl

/-- A call that comes to no end that is final has carried out all that it has attempted. -/
theorem fates_of_not_final {e : Emulator} {c : Call} (hx : (e.perform c).2.isFinal = false) :
    ∀ i < (e.attempts c).length, fate (next^[i] e.machine) = none := by
  intro i hi
  have hrun := drive_running e c (Nat.zero_lt_of_lt hi)
  cases c with
  | step =>
    have hx : e.step.2.ending.isFinal = false := hx
    rw [step_eq] at hx
    obtain ⟨hl, hf⟩ := (stepped e.machine).fate_eq hrun
    rw [hx] at hf
    have hi : i < e.machine.stepTraced.attempts.length := hi
    obtain rfl : i = 0 := by omega
    exact hf
  | run limit patience =>
    have hx : (e.run limit patience).2.ending.isFinal = false := hx
    obtain ⟨passed, more, ending, h, rfl⟩ := run_went e limit patience hrun
    have hl : (e.attempts (.run limit patience)).length = passed + more := h.length
    have hmore := h.more_le
    by_cases hp : i < passed
    · exact fate_of_verdict_eq_none (h.passes i hp)
    · obtain rfl : more = 1 := by omega
      rcases of_verdict_eq_attempt h.ends with ⟨err, -, he⟩ | ⟨-, he⟩ <;>
      · rw [he] at hx
        cases hx
  | _ => cases hi

/-- A call that comes to an end that is final comes to that of the machine. -/
theorem fated_of_final {e : Emulator} {size : Nat} (hs : e.machine.Sound size) {c : Call}
    {ending : Ending} (he : (e.perform c).2.ending = some ending) (hx : ending.isFinal = true) :
    e.machine.isRunning = true ∧ ∃ passed more, (e.attempts c).length = passed + more ∧
      Fated e.machine passed more ending := by
  cases c with
  | step =>
    have he : some e.step.2.ending = some ending := he
    rw [step_eq] at he
    obtain rfl := Option.some.inj he
    have hrun : e.machine.isRunning = true := by
      cases hm : e.machine.isRunning with
      | true => rfl
      | false =>
        have ht : e.machine.stepTraced = _ := stepTraced_of_not_running hm
        rw [ht] at hx
        cases hx
    obtain ⟨-, hf⟩ := (stepped e.machine).fate_eq hrun
    rw [if_pos hx] at hf
    exact ⟨hrun, 0, _, (Nat.zero_add _).symm, nofun, hf⟩
  | run limit patience =>
    have he : (e.run limit patience).2.ending = ending := Option.some.inj he
    cases hm : e.machine.isRunning with
    | false =>
      rw [(run_idle e limit patience hm).2.2] at he
      rw [← he] at hx
      cases hx
    | true =>
      obtain ⟨passed, more, ending', h, he'⟩ := run_went e limit patience hm
      obtain rfl : ending' = ending := he'.symm.trans he
      have hs' := hs.iterate (fun i (hi : i < passed) => h.running hm (by omega))
      exact ⟨rfl, passed, more, h.length, fun i hi => fate_of_verdict_eq_none (h.passes i hi),
        hs'.fate_of_final (lastEnding_not_final _) hx h.ends⟩
  | addBreakpoint | removeBreakpoint | clearBreakpoints => cases he
  | _ =>
    rw [ending_of_not_drives e rfl] at he
    cases he

/-- Calls that come to no end that is final have carried out all that they have attempted. -/
theorem fates_of_none_final {e : Emulator} {cs : List Call} (hd : ∀ c ∈ cs, c.drives = true)
    (hx : ∀ r ∈ e.history cs, r.reply.isFinal = false) :
    ∀ i < (tried (e.history cs)).length, fate (next^[i] e.machine) = none := by
  induction cs generalizing e with
  | nil => nofun
  | cons c cs ih =>
    intro i hi
    have hfirst := fates_of_not_final (hx _ List.mem_cons_self)
    by_cases hic : i < (e.attempts c).length
    · exact hfirst i hic
    · have hrest := ih (fun d hd' => hd d (List.mem_cons_of_mem c hd'))
        (fun r hr => hx r (List.mem_cons_of_mem _ hr))
      obtain ⟨j, rfl⟩ := Nat.exists_eq_add_of_le' (Nat.le_of_not_lt hic)
      have ht : tried (e.history (c :: cs)) =
        e.attempts c ++ tried ((e.perform c).1.history cs) := rfl
      rw [ht, List.length_append] at hi
      have hj := hrest j (by omega)
      rw [Function.iterate_add_apply, ← fate_congr
        (iterate_exact (drive_exact e (hd c List.mem_cons_self)) j)]
      exact hj

theorem tried_of_not_running {e : Emulator} {cs : List Call} (hd : ∀ c ∈ cs, c.drives = true)
    (hm : e.machine.isRunning = false) : tried (e.history cs) = [] := by
  induction cs generalizing e with
  | nil => rfl
  | cons c cs ih =>
    have hnone : e.attempts c = [] := by
      refine List.eq_nil_of_length_eq_zero (Nat.eq_zero_of_not_pos fun hpos => ?_)
      have hrun : e.machine.isRunning = true := drive_running e c hpos
      rw [hm] at hrun
      cases hrun
    have ha := drive_exact e (hd c List.mem_cons_self)
    rw [hnone] at ha
    have hm' : (e.perform c).1.machine.isRunning = false := ha.isRunning.trans hm
    show e.attempts c ++ tried ((e.perform c).1.history cs) = []
    rw [hnone, ih (fun d hd' => hd d (List.mem_cons_of_mem c hd')) hm']
    rfl

theorem Reached.resumable {size : Nat} {e : Emulator} (h : e.Reached size) :
    e.machine.Resumable := by
  obtain ⟨_, _, _, calls, -, rfl⟩ := h
  exact resumable_performAll calls

/-! ## Runs without breakpoints -/

variable {size : Nat} {e : Emulator}

theorem plain_run_went (limit : Option Int) (patience : Nat) (hm : e.machine.isRunning = true) :
    ∃ passed more ending,
      Went [] (lastEnding (limit <|> e.limit)) e.machine.resumes
        (allowance (limit <|> e.limit) patience) 0 e.machine
        (e.clearBreakpoints.runTraced limit patience) passed more ending ∧
      (e.clearBreakpoints.run limit patience).2.ending = ending :=
  run_went e.clearBreakpoints limit patience hm

/-- A run without breakpoints comes to the end that the machine comes to by itself, or does all
    that it may. -/
theorem plain_run_ends (hs : e.machine.Sound size) (hm : e.machine.isRunning = true)
    (limit : Option Int) (patience : Nat) :
    let r := e.clearBreakpoints.run limit patience
    let allowed := allowance (limit <|> e.limit) patience
    (∃ passed more ending, passed + more ≤ allowed ∧ ending.isFinal = true ∧
      Fated e.machine passed more ending ∧ r.2.ending = ending ∧
      exact.Alike r.1.machine (next^[passed + more] e.machine)) ∨
    (∀ i < allowed, fate (next^[i] e.machine) = none) ∧
      (next^[allowed] e.machine).isPastEnd = false ∧
      r.2.ending = lastEnding (limit <|> e.limit) ∧
      exact.Alike r.1.machine (next^[allowed] e.machine) := by
  intro r allowed
  obtain ⟨passed, more, ending, h, hend⟩ := plain_run_went limit patience hm
  have hpass := fun i hi => fate_of_verdict_eq_none (h.passes i hi)
  have hk : exact.Alike r.1.machine (next^[passed + more] e.machine) :=
    (run_exact e.clearBreakpoints limit patience).2.1.trans h.machine
  cases hx : ending.isFinal with
  | true =>
    have hs' := hs.iterate fun i (hi : i < passed) => h.running hm (Nat.le_of_lt hi)
    have hfate := hs'.fate_of_final (lastEnding_not_final _) hx h.ends
    exact .inl ⟨passed, more, ending, h.length_le, hx, ⟨hpass, hfate⟩, hend, hk⟩
  | false =>
    obtain ⟨rfl, hspent, rfl, hp⟩ := of_verdict_not_final h.ends hx
    obtain rfl : passed = allowed := of_decide_eq_true hspent
    exact .inr ⟨hpass, hp, hend, hk⟩

/-- As long as nothing comes to an end, a run without breakpoints does all that it may. -/
theorem plain_run_of_fates (hs : e.machine.Sound size) (hm : e.machine.isRunning = true)
    (limit : Option Int) (patience : Nat)
    (hf : ∀ i < allowance (limit <|> e.limit) patience, fate (next^[i] e.machine) = none) :
    exact.Alike (e.clearBreakpoints.run limit patience).1.machine
      (next^[allowance (limit <|> e.limit) patience] e.machine) := by
  rcases plain_run_ends hs hm limit patience with ⟨passed, more, _, hle, -, hfated, -, hk⟩ | h
  · have hge := hfated.le hf
    rw [show passed + more = allowance (limit <|> e.limit) patience by omega] at hk
    exact hk
  · exact h.2.2.2

/-- A run without breakpoints that is long enough comes to the end of the machine. -/
theorem plain_run_of_fated (hs : e.machine.Sound size) (hm : e.machine.isRunning = true)
    {passed more : Nat} {ending : Ending} (hf : Fated e.machine passed more ending)
    (limit : Option Int) (patience : Nat) (ha : passed < allowance (limit <|> e.limit) patience) :
    exact.Alike (e.clearBreakpoints.run limit patience).1.machine
        (next^[passed + more] e.machine) ∧
      (e.clearBreakpoints.run limit patience).2.ending = ending := by
  rcases plain_run_ends hs hm limit patience with ⟨_, _, _, -, -, hfated, hend, hk⟩ | ⟨hnone, -⟩
  · obtain ⟨rfl, rfl, rfl⟩ := hf.unique hfated
    exact ⟨hk, hend⟩
  · exact absurd (hf.le hnone) (Nat.not_le.2 ha)

/-! ## Interruptions -/

/-- Calls that only interrupt the program leave it where one run leaves it that is not
    interrupted. -/
theorem interrupted (hs : e.machine.Sound size) {cs : List Call}
    (hd : ∀ c ∈ cs, c.drives = true) (hx : ∀ r ∈ e.history cs, r.reply.isFinal = false)
    (patience : Nat) :
    exact.Alike (e.performAll cs).machine
      (e.clearBreakpoints.run (some (tried (e.history cs)).length) patience).1.machine := by
  obtain ⟨ha, -⟩ := schedule e hd
  cases hm : e.machine.isRunning with
  | true =>
    have hk := plain_run_of_fates hs hm (some ((tried (e.history cs)).length : Int)) patience
      (fates_of_none_final hd hx)
    exact ha.trans hk.symm
  | false =>
    rw [tried_of_not_running hd hm] at ha ⊢
    have hi := run_exact e.clearBreakpoints (some ((0 : Nat) : Int)) patience
    have hk : exact.Alike _ e.machine :=
      (run_idle e.clearBreakpoints (some ((0 : Nat) : Int)) patience hm).2.1 ▸ hi.2.1
    exact ha.trans hk.symm

/-- Where the last of these calls comes to an end, a run that is not interrupted comes to the
    same end, with the same machine. -/
theorem interrupted_final (hs : e.machine.Sound size) {cs : List Call} {c : Call}
    (hd : ∀ d ∈ cs ++ [c], d.drives = true) (hx : ∀ r ∈ e.history cs, r.reply.isFinal = false)
    {ending : Machine.Ending} (he : ((e.performAll cs).perform c).2.ending = some ending)
    (hf : ending.isFinal = true) {limit : Option Int} {patience : Nat}
    (ha : (tried (e.history (cs ++ [c]))).length < allowance (limit <|> e.limit) patience) :
    exact.Alike (e.performAll (cs ++ [c])).machine
        (e.clearBreakpoints.run limit patience).1.machine ∧
      (e.clearBreakpoints.run limit patience).2.ending = ending := by
  have hdcs : ∀ d ∈ cs, d.drives = true := fun d hmem => hd d (List.mem_append_left _ hmem)
  obtain ⟨hcs, -⟩ := schedule e hdcs
  obtain ⟨hall, -⟩ := schedule e hd
  have hfates := fates_of_none_final hdcs hx
  have htried : tried (e.history (cs ++ [c])) =
      tried (e.history cs) ++ (e.performAll cs).attempts c := by
    unfold tried
    rw [history_concat, List.flatMap_append, List.flatMap_singleton]
    rfl
  have hm : e.machine.isRunning = true := by
    cases hm : e.machine.isRunning with
    | true => rfl
    | false =>
      rw [tried_of_not_running hdcs hm] at hcs
      have hcs : exact.Alike (e.performAll cs).machine e.machine := hcs
      have hrun := (fated_of_final (hs.of_eq hcs.memory hcs.regs) he hf).1
      rw [hcs.isRunning, hm] at hrun
      cases hrun
  have hs' : (e.performAll cs).machine.Sound size :=
    (hs.iterate fun i hi => isRunning_of_fates hm hfates i (Nat.le_of_lt hi)).of_eq hcs.memory
      hcs.regs
  obtain ⟨-, passed, more, hl, hfated⟩ := fated_of_final hs' he hf
  have hbehind := hfated.behind hfates hcs
  rw [htried, List.length_append, hl] at ha hall
  obtain ⟨hk, hend⟩ := plain_run_of_fated hs hm hbehind limit patience (by omega)
  refine ⟨?_, hend⟩
  rw [show (tried (e.history cs)).length + (passed + more) =
    passed + (tried (e.history cs)).length + more by omega] at hall
  exact hall.trans hk.symm

/-- What a machine shows does not depend on how its execution is scheduled. Calls that drive the
    machine make the cycles that they attempt, one after the other, and count them; two runs go as
    far as one with the limits of both; and calls that stop at breakpoints, limits or after single
    steps lead where one run without breakpoints leads, to the same end if they come to one. -/
theorem schedule_view (h : e.Reached size) :
    (∀ cs, (∀ c ∈ cs, c.drives = true) →
      (e.performAll cs).machine.view = (next^[(tried (e.history cs)).length] e.machine).view ∧
      (∀ i (hi : i < (tried (e.history cs)).length),
        (tried (e.history cs))[i].view = (next^[i] e.machine).view) ∧
      ((e.performAll cs).machine.cycles : Int) =
        e.machine.cycles + ((e.history cs).map Record.counted).sum) ∧
    (∀ a b : Int, 0 ≤ a → 0 ≤ b → ∀ p q r,
      (e.run (some a) p).2.ending = .stopped .cycleLimit →
      ((e.run (some a) p).1.run (some b) q).1.machine.view =
        (e.run (some (a + b)) r).1.machine.view ∧
      ((e.run (some a) p).1.run (some b) q).2.ending = (e.run (some (a + b)) r).2.ending) ∧
    (∀ cs, (∀ c ∈ cs, c.drives = true) → (∀ r ∈ e.history cs, r.reply.isFinal = false) →
      (∀ p, (e.performAll cs).machine.view =
        (e.clearBreakpoints.run (some (tried (e.history cs)).length) p).1.machine.view) ∧
      ∀ c, c.drives = true → ∀ ending : Machine.Ending,
        ((e.performAll cs).perform c).2.ending = some ending → ending.isFinal = true →
        ∀ limit p, (tried (e.history (cs ++ [c]))).length < allowance (limit <|> e.limit) p →
          (e.performAll (cs ++ [c])).machine.view =
              (e.clearBreakpoints.run limit p).1.machine.view ∧
            (e.clearBreakpoints.run limit p).2.ending = ending) := by
  refine ⟨fun cs hd => ?_, fun a b ha hb p q r hstop => ?_, fun cs hd hx => ⟨fun p => ?_, ?_⟩⟩
  · obtain ⟨ha, hc, hn⟩ := schedule e hd
    exact ⟨view_eq_iff.2 ha, fun i hi => view_eq_iff.2 (hc i hi), hn⟩
  · obtain ⟨ha, he⟩ := run_add h.resumable ha hb p q r hstop
    exact ⟨view_eq_iff.2 ha, he⟩
  · exact view_eq_iff.2 (interrupted h.sound.machine hd hx p)
  · intro c hc ending he hf limit p hl
    have hd' : ∀ d ∈ cs ++ [c], d.drives = true := by
      intro d hmem
      rcases List.mem_append.1 hmem with hmem | hmem
      · exact hd d hmem
      · rw [List.mem_singleton.1 hmem]
        exact hc
    obtain ⟨ha, hend⟩ := interrupted_final h.sound.machine hd' hx he hf hl
    exact ⟨view_eq_iff.2 ha, hend⟩

/-- A program that is stopped at a breakpoint, stepped and resumed, against one run. -/
theorem schedule_view_echo :
    let e := (Emulator.new (.zeros 4 (by decide)) ["12"] none).performAll [.load echo]
    let cs : List Call := [.addBreakpoint 2, .run none 9, .step]
    (e.performAll (cs ++ [.run none 9])).machine.view = (next^[3] e.machine).view ∧
      ((e.run (some 1) 0).1.run (some 2) 0).1.machine.view =
        (e.run (some (1 + 2)) 0).1.machine.view ∧
      (e.performAll (cs ++ [.run none 9])).machine.view =
        (e.clearBreakpoints.run none 9).1.machine.view ∧
      (e.clearBreakpoints.run none 9).2.ending = .stopped .halted := by
  intro e cs
  have hreached : e.Reached 4 := reached_echo
  obtain ⟨hdrive, hadd, hstop⟩ := schedule_view hreached
  have hcs : ∀ c ∈ cs, c.drives = true := by simp [cs, Call.drives]
  have hall : ∀ c ∈ cs ++ [.run none 9], c.drives = true := by simp [cs, Call.drives]
  have htried : (tried (e.history (cs ++ [.run none 9]))).length = 3 := by decide +kernel
  have hnone : (e.history cs).all (fun r => !r.reply.isFinal) = true := by decide +kernel
  have hlimit : (e.run (some 1) 0).2.ending = .stopped .cycleLimit := by decide +kernel
  have hend : ((e.performAll cs).perform (.run none 9)).2.ending = some (.stopped .halted) := by
    decide +kernel
  have hnf : ∀ r ∈ e.history cs, r.reply.isFinal = false := by
    intro r hr
    simpa using List.all_eq_true.1 hnone r hr
  have hv := (hdrive _ hall).1
  rw [htried] at hv
  have ha := (hadd 1 2 (by decide) (by decide) 0 0 0 hlimit).1
  have hl : (tried (e.history (cs ++ [.run none 9]))).length < allowance (none <|> e.limit) 9 := by
    rw [htried]
    decide +kernel
  have hk := (hstop cs hcs hnf).2 (.run none 9) rfl (.stopped .halted) hend rfl none 9 hl
  exact ⟨hv, ha, hk.1, hk.2⟩

end Emulator

end DecimalMachine
