import DecimalMachine.Machine
import DecimalMachine.StopEvent
/-
  Runs: single steps, and running until the machine halts, leaves memory, reaches a limit or is
  stopped by a watch.
-/
namespace DecimalMachine

/-- How a step or a run ended. A run without a limit may also be left `unfinished`, when the
    cycles it was allowed are used up. -/
inductive Outcome
  | stopped (e : StopEvent)
  | failed (e : MachineError)
  | unfinished
deriving DecidableEq

/-- A watch is told the address and the number of every instruction before it is carried out,
    and says whether the run may go on. `σ` is what it remembers. -/
abbrev Watch (σ : Type) := σ → Int → Option Int → σ × Bool

/-- The machine after a step or a run, how that ended and what the watch remembers. -/
structure Run (σ : Type) where
  machine : Machine
  memo : σ
  outcome : Outcome

namespace Machine

/-- An event at the program counter. -/
def stop (m : Machine) (reason : StopReason) (cycles : Nat) : StopEvent :=
  .stoppedAt reason m.regs.pc cycles

/-- Carries out exactly one instruction, whatever a watch would say. -/
def step (m : Machine) : Machine × Outcome :=
  if !m.isRunning then (m, .stopped (m.stop .notRunning 0))
  else if m.isPastEnd then (m, .stopped (m.stop .endOfMemory 0))
  else
    let r := { m with resume := none }.cycle
    match r.failure with
    | some e => (r.machine, .failed e)
    | none =>
      let reason := if r.machine.state = .halted then StopReason.halted else .step
      (r.machine, .stopped (r.machine.stop reason 1))

/-- What a watch says before an instruction. -/
inductive Consent (σ : Type)
  | go (m : Machine) (memo : σ)
  | halt (m : Machine) (memo : σ)
  | refuse (e : MachineError)

/-- Asks the watch about the instruction at the program counter. It is not asked about the first
    instruction of a run that goes on where a watch stopped the last one. -/
def consult (watch : Watch σ) (first : Bool) (memo : σ) (m : Machine) : Consent σ :=
  if first && m.resume = some m.regs.pc then .go { m with resume := none } memo
  else
    match m.memory.read m.regs.pc with
    | .error e => .refuse e
    | .ok c =>
      let (memo, go) := watch memo m.regs.pc c.value?
      if go then .go m memo else .halt { m with resume := some m.regs.pc } memo

def consent (watch : Option (Watch σ)) (first : Bool) (memo : σ) (m : Machine) : Consent σ :=
  match watch with
  | some w => consult w first memo m
  | none => .go m memo

/-- The note of a run that comes to the end of memory, unless the program counter is too long for
    it. -/
def endNote (m : Machine) : Except DigitLimit Note :=
  (Text.writeNumeral m.regs.pc).map fun _ =>
    .debug s!"Program counter reached end of memory ({m.regs.pc})"

/-- How a run comes to the end of memory after `executed` instructions. -/
def reachEnd (m : Machine) (executed : Nat) : Machine × Outcome :=
  match m.endNote with
  | .ok note => (m.note note, .stopped (m.stop .endOfMemory executed))
  | .error e => (m, .failed (.number e))

/-- Runs for at most `allowed` more instructions after `executed` of them. `atEnd` is the outcome
    when these are used up. -/
def runFrom (watch : Option (Watch σ)) (atEnd : Machine → Nat → Outcome) :
    (allowed executed : Nat) → (memo : σ) → (m : Machine) → Run σ
  | allowed, executed, memo, m =>
    if m.isPastEnd then
      let (m, outcome) := m.reachEnd executed
      ⟨m, memo, outcome⟩
    else
      match allowed with
      | 0 => ⟨m, memo, atEnd m executed⟩
      | allowed + 1 =>
        match consent watch (executed = 0) memo m with
        | .refuse e => ⟨m, memo, .failed e⟩
        | .halt m memo => ⟨m, memo, .stopped (m.stop .breakpoint executed)⟩
        | .go m memo =>
          let r := m.cycle
          match r.failure with
          | some e => ⟨r.machine, memo, .failed e⟩
          | none =>
            if r.machine.state = .halted then
              ⟨r.machine, memo, .stopped (r.machine.stop .halted (executed + 1))⟩
            else runFrom watch atEnd allowed (executed + 1) memo r.machine

/-- Runs until the machine stops, for at most `limit` instructions; without a limit, until it
    stops or has carried out `patience` instructions. -/
def run (watch : Option (Watch σ)) (memo : σ) (limit : Option Int) (patience : Nat)
    (m : Machine) : Run σ :=
  if !m.isRunning then ⟨m, memo, .stopped (m.stop .notRunning 0)⟩
  else
    match limit with
    | some n => runFrom watch (fun m k => .stopped (m.stop .cycleLimit k)) n.toNat 0 memo m
    | none => runFrom watch (fun _ _ => .unfinished) patience 0 memo m

end Machine

end DecimalMachine
