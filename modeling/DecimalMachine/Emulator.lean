import DecimalMachine.Image.Parser
import DecimalMachine.Machine.Run
/-
  An emulator: a machine with the image it was loaded with, breakpoints and a limit for runs.
-/
namespace DecimalMachine

/-- The breakpoints are in ascending order. -/
structure Emulator where
  machine : Machine
  breakpoints : List Int
  image : Option Image
  limit : Option Int

namespace Emulator

def new (memory : Memory) (input : List String) (limit : Option Int) : Emulator :=
  ⟨Machine.new memory input, [], none, limit⟩

/-- Changes the machine. -/
def modify (e : Emulator) (f : Machine → Machine) : Emulator := { e with machine := f e.machine }

/-! ## Loading -/

def clearMemory (m : Machine) : Machine := { m with memory := m.memory.clear }

/-- Loads an image into memory that has been cleared, and starts at its origin. When that fails
    nothing but memory has changed. -/
def load (e : Emulator) (i : Image) : Emulator × Option ImageError :=
  let (memory, noted) := i.loadOver e.machine.memory.clear
  match noted with
  | .error err => (e.modify fun m => { m with memory }, some err)
  | .ok note =>
    let m := ({ e.machine with memory }).note note
    let start := twoDigits i.origin
    let m := (m.reset i.origin).debug
      s!"Loaded {i.words.length} words, execution starts at {start}"
    ({ e with machine := m, image := some i }, none)

def addNotes (m : Machine) (notes : Array Note) : Machine := notes.foldl Machine.note m

/-- Reads an image that fits in memory from its text form, and loads it. -/
def loadText (e : Emulator) (text : String) : Emulator × Option ImageError :=
  let parsed := Image.parse text (some e.machine.memory.size)
  let e := e.modify (addNotes · parsed.notes)
  match parsed.result with
  | .error err => (e, some err)
  | .ok i => e.load i

/-- Loads the image again. Without one, clears memory and starts at zero. -/
def reset (e : Emulator) : Emulator × Option ImageError :=
  match e.image with
  | some i => e.load i
  | none => (e.modify fun m => (clearMemory m).reset 0, none)

/-! ## Running -/

/-- Carries out one instruction, at a breakpoint or not. -/
def step (e : Emulator) : Emulator × Outcome :=
  let (m, outcome) := e.machine.step
  ({ e with machine := m }, outcome)

/-- Stops before an instruction at a breakpoint. -/
def watch (breakpoints : List Int) : Watch Unit := fun _ pc _ => ((), !breakpoints.contains pc)

/-- Runs for at most `limit` instructions; without a limit, for as many as the emulator allows. -/
def run (e : Emulator) (limit : Option Int) (patience : Nat) : Emulator × Outcome :=
  let r := e.machine.run (some (watch e.breakpoints)) () (limit <|> e.limit) patience
  let m :=
    match r.outcome with
    | .stopped event => r.machine.debug s!"Stopped: {event.render}"
    | _ => r.machine
  ({ e with machine := m }, r.outcome)

/-! ## Breakpoints and input -/

/-- A list in ascending order with `a` in it, once. -/
def insertAscending (a : Int) : List Int → List Int
  | [] => [a]
  | b :: bs =>
    if a < b then a :: b :: bs else if a = b then b :: bs else b :: insertAscending a bs

theorem mem_insertAscending {a b : Int} {bs : List Int} :
    b ∈ insertAscending a bs ↔ b = a ∨ b ∈ bs := by
  induction bs with
  | nil => simp [insertAscending]
  | cons c bs ih =>
    rw [insertAscending]
    split
    · simp
    · split
      · subst c; simp
      · simp only [List.mem_cons, ih]
        constructor <;> rintro (h | h | h) <;> simp [h]

def addBreakpoint (e : Emulator) (a : Int) : Emulator :=
  { e with breakpoints := insertAscending a e.breakpoints }

def removeBreakpoint (e : Emulator) (a : Int) : Emulator :=
  { e with breakpoints := e.breakpoints.filter (· ≠ a) }

def clearBreakpoints (e : Emulator) : Emulator := { e with breakpoints := [] }

/-- Puts tokens behind those that wait. -/
def feed (e : Emulator) (tokens : List String) : Emulator :=
  e.modify fun m => { m with input := m.input ++ tokens }

end Emulator

end DecimalMachine
