import DecimalMachine.Proofs.Schedule
/-
  Breakpoints: a run carries out no instruction at a breakpoint but its first, and that one only
  where the last run has stopped for it. Whether it has is remembered by the machine alone, in the
  address to resume at; `resume_iff` says that this memory is right, whatever has been asked of
  the emulator in between: it names the instruction that the history is stopped before
  (`PausedAt`).
-/
namespace DecimalMachine

/-! ## Stops at breakpoints -/

namespace Record

/-- The call has stopped before the instruction at an address, a breakpoint. -/
def Pauses (r : Record) (a : Int) : Prop :=
  ∃ event : StopEvent, r.reply = .went (.stopped event) ∧ event.reason = .breakpoint ∧
    event.address = some a

/-- The call has attempted no instruction, and the machine has not started over in it. -/
def Idle (r : Record) : Prop := r.attempts = [] ∧ r.startsOver = false

theorem Pauses.ending {r : Record} {a : Int} (h : r.Pauses a) :
    r.reply.ending = some (.stopped .breakpoint) := by
  obtain ⟨event, hr, hb, -⟩ := h
  rw [hr, ← hb]
  rfl

end Record

/-- A run has stopped before the instruction at `a`, a breakpoint, and since then no instruction
    has been attempted, and the machine has not started over. -/
def PausedAt (history : List Record) (a : Int) : Prop :=
  ∃ before r after, history = before ++ r :: after ∧ r.Pauses a ∧ ∀ q ∈ after, q.Idle

theorem pausedAt_concat {history : List Record} {r : Record} {a : Int} :
    PausedAt (history ++ [r]) a ↔ r.Pauses a ∨ r.Idle ∧ PausedAt history a := by
  constructor
  · rintro ⟨before, p, after, hh, hp, hafter⟩
    induction after using List.reverseRecOn with
    | nil =>
      obtain ⟨-, hr⟩ := List.append_inj' hh rfl
      obtain rfl := List.singleton_inj.1 hr
      exact .inl hp
    | append_singleton after q =>
      have hh' : history ++ [r] = (before ++ p :: after) ++ [q] := by
        rw [hh, List.append_assoc, List.cons_append]
      obtain ⟨rfl, hr⟩ := List.append_inj' hh' rfl
      obtain rfl := List.singleton_inj.1 hr
      have hq : ∀ q ∈ after, q.Idle := fun q hq => hafter q (List.mem_append_left _ hq)
      have hlast := hafter _ (List.mem_append_right _ (List.mem_singleton.2 rfl))
      exact .inr ⟨hlast, before, p, after, rfl, hp, hq⟩
  · rintro (hp | ⟨hi, before, p, after, rfl, hp, hafter⟩)
    · exact ⟨history, r, [], rfl, hp, fun q hq => absurd hq List.not_mem_nil⟩
    · refine ⟨before, p, after ++ [r], ?_, hp, fun q hq => ?_⟩
      · rw [List.append_assoc, List.cons_append]
      · rcases List.mem_append.1 hq with hq | hq
        · exact hafter q hq
        · rw [List.mem_singleton.1 hq]
          exact hi

namespace Machine

theorem Stepped.address {m : Machine} {t : Traced (Machine × Outcome)} (h : Stepped m t)
    {event : StopEvent} (he : t.result.2 = .stopped event) :
    event.address = some t.result.1.regs.pc := by
  cases h with
  | idle => cases he; rfl
  | past => cases he; rfl
  | @tried k o _ _ _ _ ho =>
    obtain rfl : o = .stopped event := he
    cases hf : k.cycle.failure with
    | some err => rw [hf] at ho; cases ho
    | none =>
      rw [hf] at ho
      cases ho
      rfl

end Machine

namespace Emulator

open Machine Likeness

/-- What stops, stops at the program counter. -/
theorem stopped_address {e : Emulator} {c : Call} {event : StopEvent}
    (h : (e.perform c).2 = .went (.stopped event)) :
    event.address = some (e.perform c).1.machine.regs.pc := by
  have hd : c.drives = true := by
    cases hd : c.drives with
    | true => rfl
    | false =>
      have hn := ending_of_not_drives e hd
      rw [h] at hn
      cases hn
  cases c with
  | step =>
    have h : Reply.went e.step.2 = .went (.stopped event) := h
    show event.address = some e.step.1.machine.regs.pc
    rw [step_eq] at h ⊢
    exact (stepped e.machine).address (Reply.went.inj h)
  | run limit patience =>
    obtain ⟨ho, ha, -⟩ := run_exact e limit patience
    have he : (e.runTraced limit patience).result.outcome = .stopped event :=
      ho.symm.trans (Reply.went.inj h)
    show event.address = some (e.run limit patience).1.machine.regs.pc
    rw [ha.regs]
    cases hm : e.machine.isRunning with
    | false =>
      have ht : e.runTraced limit patience = _ := runTraced_of_not_running _ _ _ hm
      rw [ht] at he ⊢
      cases he
      rfl
    | true =>
      obtain ⟨_, _, ending, ht, -⟩ := run_went e limit patience hm
      have hout : (e.runTraced limit patience).result.outcome = _ := ht.outcome
      rw [hout] at he
      cases ending with
      | stopped reason =>
        obtain rfl := Outcome.stopped.inj he
        rfl
      | failed err => cases he
      | unfinished => cases he
  | addBreakpoint | removeBreakpoint | clearBreakpoints => cases h
  | _ => cases hd

theorem pauses_record {e : Emulator} {c : Call} {a : Int} :
    (e.record c).Pauses a ↔ (e.perform c).2.ending = some (.stopped .breakpoint) ∧
      a = (e.perform c).1.machine.regs.pc := by
  constructor
  · intro h
    obtain ⟨event, hr, hb, ha⟩ := id h
    have haddr := stopped_address hr
    rw [ha] at haddr
    exact ⟨h.ending, Option.some.inj haddr⟩
  · rintro ⟨he, rfl⟩
    cases hr : (e.perform c).2 with
    | went o =>
      rw [hr] at he
      cases o with
      | stopped event =>
        have hb : event.reason = .breakpoint := Ending.stopped.inj (Option.some.inj he)
        exact ⟨event, hr, hb, stopped_address hr⟩
      | failed err => cases he
      | unfinished => cases he
    | _ =>
      rw [hr] at he
      cases he

/-! ## The address to resume at -/

theorem startsOver_of_drives (e : Emulator) {c : Call} (hd : c.drives = true) :
    (e.record c).startsOver = false := by
  refine Bool.eq_false_iff.2 fun hs => ?_
  rcases Record.startsOver_iff.1 hs with hc | hr
  · rw [show c = .reset from hc] at hd
    cases hd
  · exact reply_of_drives e hd hr

/-- A call that does not drive the machine forgets where to resume when the machine starts over,
    and only then. -/
theorem resume_settled {e : Emulator} (hl : e.Reloads) {c : Call} (hd : c.drives = false) :
    (e.perform c).1.machine.resume =
      if (e.record c).startsOver then none else e.machine.resume := by
  have hs := settled e hd
  have hgoal : ∀ r : Emulator × Reply, Settled e c r →
      r.1.machine.resume =
        if (Record.mk e c (e.attempts c) r.1 r.2).startsOver then none else e.machine.resume := by
    rintro r (⟨hc, -, hr, hn⟩ | ⟨hc, hi, -, hr⟩ | ⟨-, -, -, hr⟩ | _ | _)
    · rw [if_neg fun hs => (Record.startsOver_iff.1 hs).elim hc hn]
      exact hr
    · have hne : c ≠ .reset := by
        intro hreset
        obtain ⟨memory, hm⟩ := hl _ (hc hreset)
        rw [Image.loadInto_eq hi] at hm
        cases hm
      rw [if_neg fun hs => (Record.startsOver_iff.1 hs).elim hne (fun hr => by cases hr)]
      exact hr
    · rw [if_pos (Record.startsOver_iff.2 (.inr rfl))]
      exact hr
    · rfl
    · rfl
  exact hgoal _ hs

/-- What a call leaves of the address to resume at: the place where it has stopped, or, if it has
    neither attempted anything nor made the machine start over, what was there. -/
theorem resume_record {e : Emulator} (hl : e.Reloads) (h : e.machine.Resumable) (c : Call)
    (a : Int) :
    (e.perform c).1.machine.resume = some a ↔
      (e.record c).Pauses a ∨ (e.record c).Idle ∧ e.machine.resume = some a := by
  rw [pauses_record]
  cases hd : c.drives with
  | true =>
    have hidle : (e.record c).Idle ↔ e.attempts c = [] :=
      and_iff_left (startsOver_of_drives e hd)
    rw [drive_resume h hd, hidle]
    by_cases hb : (e.perform c).2.ending = some (.stopped .breakpoint)
    · rw [if_pos hb]
      constructor
      · intro ha
        exact .inl ⟨hb, (Option.some.inj ha).symm⟩
      · rintro (⟨-, rfl⟩ | ⟨hn, ha⟩)
        · rfl
        · exact absurd hn ((at_breakpoint hb).2.2.2 (h.resumes_iff.1 ha).1)
    · rw [if_neg hb]
      by_cases hn : e.attempts c = []
      · rw [if_pos hn]
        exact ⟨fun ha => .inr ⟨hn, ha⟩, fun ha => ha.elim (fun hp => absurd hp.1 hb) And.right⟩
      · rw [if_neg hn]
        constructor
        · nofun
        · rintro (⟨hp, -⟩ | ⟨hi, -⟩)
          · exact absurd hp hb
          · exact absurd hi hn
  | false =>
    have hnil : e.attempts c = [] := by cases c <;> first | rfl | cases hd
    have hidle : (e.record c).Idle ↔ (e.record c).startsOver = false := and_iff_right hnil
    rw [ending_of_not_drives e hd, resume_settled hl hd, hidle]
    cases (e.record c).startsOver with
    | true =>
      constructor
      · nofun
      · rintro (⟨hn, -⟩ | ⟨hf, -⟩)
        · cases hn
        · cases hf
    | false =>
      constructor
      · intro ha
        exact .inr ⟨rfl, ha⟩
      · rintro (⟨hn, -⟩ | ⟨-, ha⟩)
        · cases hn
        · exact ha

/-- The address to resume at is where the history is paused. -/
theorem resume_iff (memory : Memory) (input : List String) (limit : Option Int)
    (calls : List Call) (a : Int) :
    let start := Emulator.new memory input limit
    (start.performAll calls).machine.resume = some a ↔ PausedAt (start.history calls) a := by
  intro start
  induction calls using List.reverseRecOn with
  | nil =>
    constructor
    · nofun
    · rintro ⟨before, r, after, hh, -⟩
      exact absurd hh.symm (by simp [history])
  | append_singleton calls c ih =>
    have hl : (start.performAll calls).Reloads :=
      performAll_keeps (reloads_new _ _ _) (fun e c _ he => he.perform c)
    rw [performAll_append, history_concat, pausedAt_concat, ← ih]
    exact resume_record hl (resumable_performAll calls) c a

/-! ## Runs under breakpoints -/

/-- Nothing but a pause makes a run carry out an instruction at a breakpoint, and then it is the
    first. -/
theorem attempts_admitted {e : Emulator} {limit : Option Int} {patience : Nat} {i : Nat}
    (hi : i < (e.attempts (.run limit patience)).length) :
    Admits e.breakpoints (e.machine.resumes && i = 0) (next^[i] e.machine) := by
  have hrun := drive_running e (.run limit patience) (Nat.zero_lt_of_lt hi)
  obtain ⟨passed, more, ending, h, -⟩ := run_went e limit patience hrun
  have hl : (e.attempts (.run limit patience)).length = passed + more := h.length
  by_cases hp : i < passed
  · exact (of_verdict_eq_none (h.passes i hp)).1
  · rcases of_verdict_eq_some h.ends with rfl | ⟨rfl, ha⟩
    · omega
    · obtain rfl : i = passed := by omega
      exact ha

theorem addresses_getElem {e : Emulator} {c : Call} {i : Nat}
    (hi : i < (e.record c).addresses.length) :
    i < (e.attempts c).length ∧ (e.record c).addresses[i] = (next^[i] e.machine).regs.pc := by
  have hi' : i < (e.attempts c).length := by
    have hlen : (e.record c).addresses.length = (e.attempts c).length := List.length_map _
    omega
  refine ⟨hi', ?_⟩
  have hget : (e.record c).addresses[i] = (e.attempts c)[i].regs.pc := List.getElem_map _
  rw [hget]
  exact congrArg Registers.pc (chain_attempts e c i hi').regs

theorem head_addresses {e : Emulator} {c : Call} {a : Int} :
    (e.record c).addresses.head? = some a ↔ e.attempts c ≠ [] ∧ a = e.machine.regs.pc := by
  have hlen : (e.record c).addresses.length = (e.attempts c).length := List.length_map _
  rw [List.head?_eq_getElem?, List.getElem?_eq_some_iff, ← List.length_pos_iff, ← hlen]
  constructor
  · rintro ⟨hi, rfl⟩
    exact ⟨hi, (addresses_getElem hi).2⟩
  · rintro ⟨hi, rfl⟩
    exact ⟨hi, (addresses_getElem hi).2⟩

/-- Behind its first instruction, a run carries out none at a breakpoint. -/
theorem not_breakpoint_of_mem_tail {e : Emulator} {limit : Option Int} {patience : Nat} {a : Int}
    (ha : a ∈ (e.record (.run limit patience)).addresses.tail) : a ∉ e.breakpoints := by
  obtain ⟨i, hi, rfl⟩ := List.getElem_of_mem ha
  rw [List.length_tail] at hi
  rw [List.getElem_tail]
  have hi : i + 1 < (e.record (.run limit patience)).addresses.length := by omega
  obtain ⟨hi', hpc⟩ := addresses_getElem hi
  rw [hpc]
  rcases attempts_admitted hi' with hskip | ⟨-, hb⟩
  · rw [decide_eq_false (Nat.succ_ne_zero i), Bool.and_false] at hskip
    cases hskip
  · intro hmem
    rw [List.contains_iff_mem.2 hmem] at hb
    cases hb

/-- Where the first instruction of a run is at a breakpoint, the run resumes there. -/
theorem resumes_of_head {e : Emulator} {limit : Option Int} {patience : Nat} {a : Int}
    (ha : (e.record (.run limit patience)).addresses.head? = some a) (hb : a ∈ e.breakpoints) :
    e.machine.resume = some a := by
  obtain ⟨hne, rfl⟩ := head_addresses.1 ha
  rcases attempts_admitted (List.length_pos_iff.2 hne) with hskip | ⟨-, hn⟩
  · exact of_decide_eq_true (Bool.and_eq_true_iff.1 hskip).1
  · have hn : e.breakpoints.contains e.machine.regs.pc = false := hn
    rw [List.contains_iff_mem.2 hb] at hn
    cases hn

/-- A run that resumes at an address starts with the instruction there, if it may attempt any. -/
theorem head_of_resume {e : Emulator} (h : e.machine.Resumable) {limit : Option Int}
    {patience : Nat} {a : Int} (ha : e.machine.resume = some a)
    (hallow : 1 ≤ allowance (limit <|> e.limit) patience) :
    (e.record (.run limit patience)).addresses.head? = some a := by
  obtain ⟨rfl, hm, hh⟩ := h a ha
  refine head_addresses.2 ⟨fun hnil => ?_, rfl⟩
  obtain ⟨passed, more, ending, ht, -⟩ := run_went e limit patience hm
  have hl : (e.attempts (.run limit patience)).length = passed + more := ht.length
  rw [hnil] at hl
  obtain rfl : passed = 0 := by simp at hl; omega
  obtain rfl : more = 0 := by simp at hl; omega
  have hresumes : e.machine.resumes = true := decide_eq_true ha
  have hpast : e.machine.isPastEnd = false := by
    have hlt := (Memory.holds_iff.1 hh).2
    exact decide_eq_false (by omega)
  have hend := ht.ends
  rw [hresumes, decide_eq_false (show ¬ 0 = allowance _ _ by omega)] at hend
  have hv := verdict_of_admits (lastEnding (limit <|> e.limit)) hpast
    (.inl rfl : Admits e.breakpoints true e.machine)
  rw [show verdict _ _ true false e.machine = _ from hend] at hv
  split at hv
  · cases hv
  · split at hv <;> cases hv

/-- Breakpoints are exact. Behind its first instruction a run carries out none at a breakpoint;
    its first is at one only if the history is paused there; a run that stops at a breakpoint has
    not carried out the instruction that it stops before, unless it was paused there and has come
    back to it; and a run that is paused goes on by at least one instruction. -/
theorem breakpoints_exact (memory : Memory) (input : List String) (max : Option Int)
    (calls : List Call) (limit : Option Int) (patience : Nat) :
    let start := Emulator.new memory input max
    let e := start.performAll calls
    let r := e.record (.run limit patience)
    let pc := r.after.machine.regs.pc
    (∀ a ∈ r.addresses.tail, a ∉ e.breakpoints) ∧
    (∀ a, r.addresses.head? = some a → a ∈ e.breakpoints → PausedAt (start.history calls) a) ∧
    (∀ event, r.reply = .went (.stopped event) → event.reason = .breakpoint →
      event.address = some pc ∧ pc ∈ e.breakpoints ∧
      event.cycles = r.attempts.length ∧
      r.after.machine.view = (next^[r.attempts.length] e.machine).view ∧
      (pc ∈ r.addresses → r.addresses.head? = some pc ∧ PausedAt (start.history calls) pc)) ∧
    (∀ a, PausedAt (start.history calls) a → 1 ≤ allowance (limit <|> e.limit) patience →
      r.addresses.head? = some a ∧
      ∀ event, r.reply = .went (.stopped event) → event.reason = .breakpoint →
        event.cycles ≠ 0) := by
  intro start e r pc
  have hres : e.machine.Resumable := resumable_performAll calls
  have hiff : ∀ a, e.machine.resume = some a ↔ PausedAt (start.history calls) a :=
    resume_iff memory input max calls
  have htail : ∀ a ∈ r.addresses.tail, a ∉ e.breakpoints := fun a => not_breakpoint_of_mem_tail
  have hhead : ∀ a, r.addresses.head? = some a → a ∈ e.breakpoints →
      PausedAt (start.history calls) a :=
    fun a ha hb => (hiff a).1 (resumes_of_head ha hb)
  refine ⟨htail, hhead, fun event hr hb => ?_, fun a hp hallow => ?_⟩
  · have hpauses : r.Pauses pc := ⟨event, hr, hb, stopped_address hr⟩
    obtain ⟨-, -, hmem, -⟩ := at_breakpoint hpauses.ending
    have hmem : pc ∈ e.breakpoints := List.contains_iff_mem.1 hmem
    refine ⟨stopped_address hr, hmem, (stopped_cycles rfl hr).1,
      view_eq_iff.2 (drive_exact e rfl), fun hpc => ?_⟩
    have hfirst : r.addresses.head? = some pc := by
      cases ha : r.addresses with
      | nil =>
        rw [ha] at hpc
        cases hpc
      | cons a as =>
        rw [ha] at hpc htail
        rcases List.mem_cons.1 hpc with hpc | hpc
        · exact congrArg some hpc.symm
        · exact absurd hmem (htail pc hpc)
    exact ⟨hfirst, hhead pc hfirst hmem⟩
  · have hfirst := head_of_resume hres ((hiff a).2 hp) hallow
    refine ⟨hfirst, fun event hr _ hzero => ?_⟩
    have hne := (head_addresses.1 hfirst).1
    have hc := (stopped_cycles rfl hr).1
    rw [hzero] at hc
    exact hne (List.eq_nil_of_length_eq_zero (Int.ofNat.inj hc).symm)

/-- A jump to itself at a breakpoint, which a run has stopped at. -/
def loopCalls : List Call := [.load ⟨["4000"], 0, .empty⟩, .addBreakpoint 0, .run none 5]

/-- The run that resumes at the jump carries it out, comes back to it, and stops at the breakpoint: the
    instruction that it stops before is one that it has carried out. -/
theorem breakpoints_exact_loop :
    let e := (Emulator.new (.zeros 1 (by decide)) [] none).performAll loopCalls
    let r := e.record (.run none 5)
    r.reply = .went (.stopped ⟨.breakpoint, some 0, 1, ""⟩) ∧ r.after.machine.regs.pc = 0 ∧
      0 ∈ e.breakpoints ∧ r.addresses = [0] := by
  decide +kernel

/-- The loop is paused at its jump, so the run starts there, and stops with a cycle done. -/
theorem breakpoints_exact_paused :
    let start := Emulator.new (.zeros 1 (by decide)) [] none
    let r := (start.performAll loopCalls).record (.run none 5)
    PausedAt (start.history loopCalls) 0 ∧ r.addresses.head? = some 0 ∧
      ∀ event, r.reply = .went (.stopped event) → event.reason = .breakpoint → event.cycles ≠ 0 := by
  intro start r
  obtain ⟨-, hhead, -, hgoes⟩ :=
    breakpoints_exact (.zeros 1 (by decide)) [] none loopCalls none 5
  have hfirst : r.addresses.head? = some 0 := by decide +kernel
  have hpaused := hhead 0 hfirst (by decide +kernel)
  obtain ⟨-, hcycles⟩ := hgoes 0 hpaused (by decide)
  exact ⟨hpaused, hfirst, hcycles⟩

end Emulator

end DecimalMachine
