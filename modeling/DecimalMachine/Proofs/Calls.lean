import DecimalMachine.Proofs.Attempts
/-
  Calls: everything that can be asked of an emulator, one call after the other. A call is carried
  out whether it succeeds or is refused; its record keeps the emulator before and behind it, the
  answer, and the machines to which it applied the cycle. Steps and runs change nothing but what
  the cycles they attempt change, and the address to resume at (`drive_exact`).
-/
namespace DecimalMachine

/-- What can be asked of an emulator. A file may be one that cannot be read; a run without a
    limit is looked at after `patience` instructions at the latest. -/
inductive Call
  | load (i : Image)
  | loadFile (content : Option String)
  | reset
  | step
  | run (limit : Option Int) (patience : Nat)
  | addBreakpoint (a : Int)
  | removeBreakpoint (a : Int)
  | clearBreakpoints
  | feed (tokens : List String)

/-- What a call answers. -/
inductive Reply
  | loaded
  | refused (e : ImageError)
  | unreadable
  | went (o : Outcome)
  | done
deriving DecidableEq

/-- The answer to a load. -/
def Reply.ofLoad : Option ImageError → Reply
  | none => .loaded
  | some e => .refused e

namespace Call

/-- The call lets the machine execute, or says where it is to stop. -/
def drives : Call → Bool
  | .step | .run .. | .addBreakpoint _ | .removeBreakpoint _ | .clearBreakpoints => true
  | _ => false

end Call

namespace Emulator

/-- Carries out a call. -/
def perform (e : Emulator) : Call → Emulator × Reply
  | .load i => ((e.load i).1, .ofLoad (e.load i).2)
  | .loadFile none => (e, .unreadable)
  | .loadFile (some text) => ((e.loadText text).1, .ofLoad (e.loadText text).2)
  | .reset => (e.reset.1, .ofLoad e.reset.2)
  | .step => (e.step.1, .went e.step.2)
  | .run limit patience => ((e.run limit patience).1, .went (e.run limit patience).2)
  | .addBreakpoint a => (e.addBreakpoint a, .done)
  | .removeBreakpoint a => (e.removeBreakpoint a, .done)
  | .clearBreakpoints => (e.clearBreakpoints, .done)
  | .feed tokens => (e.feed tokens, .done)

/-- The run that a call of `run` makes, with its attempts. -/
def runTraced (e : Emulator) (limit : Option Int) (patience : Nat) : Traced (Run Unit) :=
  e.machine.runTraced (some (watch e.breakpoints)) () (limit <|> e.limit) patience

/-- The machines to which a call applies the cycle. -/
def attempts (e : Emulator) : Call → List Machine
  | .step => e.machine.stepTraced.attempts
  | .run limit patience => (e.runTraced limit patience).attempts
  | _ => []

/-- The emulator behind some calls. -/
def performAll (e : Emulator) (cs : List Call) : Emulator :=
  cs.foldl (fun e c => (e.perform c).1) e

theorem performAll_cons (e : Emulator) (c : Call) (cs : List Call) :
    e.performAll (c :: cs) = (e.perform c).1.performAll cs := rfl

theorem performAll_append (e : Emulator) (cs ds : List Call) :
    e.performAll (cs ++ ds) = (e.performAll cs).performAll ds := List.foldl_append ..

theorem reply_of_drives (e : Emulator) {c : Call} (hc : c.drives = true) :
    (e.perform c).2 ≠ .loaded := by
  intro h
  cases c with
  | step | run | addBreakpoint | removeBreakpoint | clearBreakpoints => cases h
  | _ => cases hc

/-- What every call keeps, all calls keep. -/
theorem performAll_keeps {P : Emulator → Prop} {e : Emulator} {cs : List Call} (he : P e)
    (h : ∀ e c, c ∈ cs → P e → P (e.perform c).1) : P (e.performAll cs) := by
  induction cs generalizing e with
  | nil => exact he
  | cons c cs ih =>
    have hc := h e c List.mem_cons_self he
    exact ih hc (fun e d hd => h e d (List.mem_cons_of_mem c hd))

end Emulator

/-! ## Records -/

/-- A call that has been made. -/
structure Record where
  before : Emulator
  call : Call
  attempts : List Machine
  after : Emulator
  reply : Reply

namespace Record

/-- The machine has started over: it was reset, or an image was loaded. -/
def startsOver (r : Record) : Bool :=
  match r.call, r.reply with
  | .reset, _ | _, .loaded => true
  | _, _ => false

theorem startsOver_iff {r : Record} :
    r.startsOver = true ↔ r.call = .reset ∨ r.reply = .loaded := by
  unfold startsOver
  cases r.call <;> cases r.reply <;> simp

/-- The lines that were written during the call. -/
def lines (r : Record) : List String :=
  r.after.machine.written.drop r.before.machine.written.length

/-- The addresses of the instructions that were attempted. -/
def addresses (r : Record) : List Int := r.attempts.map fun m => m.regs.pc

/-- How many of the attempted cycles were completed. -/
def completed (r : Record) : Nat := r.attempts.countP fun m => m.cycle.failure.isNone

end Record

namespace Emulator

/-- The record of a call. -/
def record (e : Emulator) (c : Call) : Record :=
  ⟨e, c, e.attempts c, (e.perform c).1, (e.perform c).2⟩

/-- The records of some calls. -/
def history (e : Emulator) : List Call → List Record
  | [] => []
  | c :: cs => e.record c :: history (e.perform c).1 cs

theorem history_append (e : Emulator) (cs ds : List Call) :
    e.history (cs ++ ds) = e.history cs ++ (e.performAll cs).history ds := by
  induction cs generalizing e with
  | nil => rfl
  | cons c cs ih =>
    rw [List.cons_append, history, history, List.cons_append, ih, performAll_cons]

theorem history_concat (e : Emulator) (cs : List Call) (c : Call) :
    e.history (cs ++ [c]) = e.history cs ++ [(e.performAll cs).record c] := history_append e cs [c]

/-! ## Steps and runs -/

open Machine Likeness

theorem step_eq (e : Emulator) :
    e.step = ({ e with machine := e.machine.stepTraced.result.1 },
      e.machine.stepTraced.result.2) := by
  rw [stepTraced_result]
  rfl

/-- A run notes how it stopped, and that is all it does to the machine of the run below it. -/
theorem run_exact (e : Emulator) (limit : Option Int) (patience : Nat) :
    (e.run limit patience).2 = (e.runTraced limit patience).result.outcome ∧
      exact.Alike (e.run limit patience).1.machine
        (e.runTraced limit patience).result.machine ∧
      (e.run limit patience).1.machine.resume =
        (e.runTraced limit patience).result.machine.resume := by
  unfold Emulator.run Emulator.runTraced
  rw [runTraced_result]
  dsimp only
  split
  · exact ⟨rfl, .of_note _ _, rfl⟩
  · exact ⟨rfl, .refl _, rfl⟩

theorem stepTraced_exact (m : Machine) :
    exact.Alike m.stepTraced.result.1 (next^[m.stepTraced.attempts.length] m) := by
  unfold stepTraced
  split
  · exact .refl m
  · split
    · exact .refl m
    · have h := (cycle_exact (Alike.setResume m none)).2
      dsimp only
      cases ({ m with resume := none } : Machine).cycle.failure <;> exact h

theorem runTraced_exact (breakpoints : List Int) (limit : Option Int) (patience : Nat)
    (m : Machine) :
    let t := m.runTraced (some (watch breakpoints)) () limit patience
    exact.Alike t.result.machine (next^[t.attempts.length] m) := by
  intro t
  cases hm : m.isRunning with
  | true =>
    obtain ⟨passed, more, ending, ht⟩ := runTraced_went breakpoints limit patience hm
    have h := ht.machine
    rw [← ht.length] at h
    exact h
  | false =>
    have ht : t = _ := runTraced_of_not_running breakpoints limit patience hm
    rw [ht]
    exact .refl m

/-- A call that drives the machine leaves it as the cycles that it attempts leave it. -/
theorem drive_exact (e : Emulator) {c : Call} (hc : c.drives = true) :
    exact.Alike (e.perform c).1.machine (next^[(e.attempts c).length] e.machine) := by
  cases c with
  | step =>
    unfold perform
    rw [step_eq]
    exact stepTraced_exact e.machine
  | run limit patience =>
    have h := (run_exact e limit patience).2.1
    exact h.trans (runTraced_exact e.breakpoints (limit <|> e.limit) patience e.machine)
  | addBreakpoint a => exact .refl _
  | removeBreakpoint a => exact .refl _
  | clearBreakpoints => exact .refl _
  | _ => cases hc

/-- No call attempts an instruction of a machine that does not run. -/
theorem drive_running (e : Emulator) (c : Call) {i : Nat} (hi : i < (e.attempts c).length) :
    (next^[i] e.machine).isRunning = true := by
  cases c with
  | step =>
    have hs : i < e.machine.stepTraced.attempts.length := hi
    unfold stepTraced at hs
    cases hr : e.machine.isRunning with
    | false =>
      rw [hr] at hs
      cases hs
    | true =>
      rw [hr, Bool.not_true, if_neg Bool.false_ne_true] at hs
      have h0 : i = 0 := by
        split at hs
        · cases hs
        · dsimp only at hs
          split at hs <;> exact Nat.lt_one_iff.1 hs
      rw [h0]
      exact hr
  | run limit patience =>
    have hs : i < (e.runTraced limit patience).attempts.length := hi
    cases hr : e.machine.isRunning with
    | false =>
      unfold Emulator.runTraced at hs
      rw [runTraced_of_not_running _ _ _ hr] at hs
      cases hs
    | true =>
      obtain ⟨passed, more, ending, ht⟩ :=
        runTraced_went e.breakpoints (limit <|> e.limit) patience hr
      have hl : (e.runTraced limit patience).attempts.length = passed + more := ht.length
      have hm := ht.more_le
      exact ht.running hr (by omega)
  | _ => cases hi

end Emulator

end DecimalMachine
