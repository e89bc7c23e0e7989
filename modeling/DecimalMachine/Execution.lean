import DecimalMachine.Dump
import DecimalMachine.Emulator
/-
  Execution: running a loaded emulator to its end, straight or step by step, with all that is
  shown on the way.
-/
namespace DecimalMachine

/-- What an execution shows: entries of the journal, and lines of its own. -/
inductive Display
  | entry (e : Entry)
  | line (s : String)

/-- An execution. Nothing was done if there is no outcome. -/
structure Execution where
  emulator : Emulator
  displays : Array Display
  outcome : Option Outcome

namespace Execution

/-- Takes the entries out of the journal. -/
def drain (e : Emulator) : Emulator × Array Display :=
  (e.modify fun m => { m with journal := #[] }, e.machine.journal.map .entry)

/-- Runs at a stretch. -/
def straight (e : Emulator) (patience : Nat) : Execution :=
  let (e, outcome) := e.run none patience
  let (e, shown) := drain e
  ⟨e, shown, some outcome⟩

/-- Steps at most `patience` times, with a dump before every instruction. `last` is the outcome of
    the step before. -/
def steps (shown : Array Display) (last : Option Outcome) : Nat → Emulator → Execution
  | 0, e => ⟨e, shown, some .unfinished⟩
  | patience + 1, e =>
    if e.machine.isPastEnd then ⟨e, shown, last⟩
    else
      let shown := (shown.push (.line "")).push (.line (Dump.all e.machine))
      let (e, outcome) := e.step
      let (e, more) := drain e
      let shown := shown ++ more
      match outcome with
      | .stopped event =>
        if event.reason = .step then steps (shown.push (.line "")) (some outcome) patience e
        else ⟨e, shown, some outcome⟩
      | _ => ⟨e, shown, some outcome⟩

/-- Executes what is loaded, step by step or at a stretch. -/
def run (byStep : Bool) (e : Emulator) (patience : Nat) : Execution :=
  if byStep then
    let (e, shown) := drain e
    steps shown none patience e
  else straight e patience

end Execution

end DecimalMachine
