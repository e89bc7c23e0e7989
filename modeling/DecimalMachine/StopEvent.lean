import DecimalMachine.Fault
/-
  Stop events: why a machine gave control back.
-/
namespace DecimalMachine

inductive StopReason
  | step
  | halted
  | endOfMemory
  | breakpoint
  | cycleLimit
  | notRunning
deriving DecidableEq

/-- Why, where and after how many instructions of this call the machine stopped. A message
    stands in for the text that the reason has. -/
structure StopEvent where
  reason : StopReason
  address : Option Int
  cycles : Int
  message : String
deriving DecidableEq

namespace StopEvent

def stoppedAt (reason : StopReason) (address : Int) (cycles : Nat) : StopEvent :=
  ⟨reason, some address, cycles, ""⟩

/-- The text for an event at its address, or for one with none. -/
def placed (e : StopEvent) (before without : String) : String :=
  match e.address with
  | some a => s!"{before} {twoDigits a}"
  | none => without

def render (e : StopEvent) : String :=
  if !e.message.isEmpty then e.message
  else
    match e.reason with
    | .step => e.placed "Step to" "Single step"
    | .halted => e.placed "Halted at" "Halted"
    | .endOfMemory => "Reached end of memory"
    | .breakpoint => e.placed "Breakpoint at" "Breakpoint"
    | .cycleLimit => s!"Maximum cycles reached ({e.cycles})"
    | .notRunning => "Processor is not running"

end StopEvent

end DecimalMachine
