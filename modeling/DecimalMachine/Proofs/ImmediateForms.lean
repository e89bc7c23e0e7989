import DecimalMachine.Proofs.Cycle
import DecimalMachine.Proofs.Placement
/-
  Immediate forms. Loading and the five calculations take their value from a cell or from the
  instruction itself, and nothing else about them depends on where it comes from (`immediate_form`):
  with the value of the cell as its operand the immediate form leaves the same accumulator, state,
  output and warnings, or fails for the same reason with the same message. Two machines in front of the
  two forms differ in the cell at the program counter and, once it is fetched, in the registers of the
  instruction at work (`Peers`); a value is applied without a look at either (`Peers.applyValue`).
-/
namespace DecimalMachine

/-- The operation that takes its operand itself where this one takes the cell at that address. -/
def Opcode.immediate? : Opcode → Option Opcode
  | .load => some .loadImm
  | .add => some .addImm
  | .subtract => some .subtractImm
  | .multiply => some .multiplyImm
  | .divide => some .divideImm
  | .modulo => some .moduloImm
  | _ => none

/-- Errors of one kind. They may have arisen in different operations. -/
inductive MachineError.SameKind : MachineError → MachineError → Prop
  | fault (f : Fault) (pc op op' : Option Int) :
      SameKind (.fault ⟨f, pc, op⟩) (.fault ⟨f, pc, op'⟩)
  | address (a size : Int) : SameKind (.address a size) (.address a size)
  | number (e : DigitLimit) : SameKind (.number e) (.number e)

/-- The operation is no part of the message. -/
theorem MachineError.SameKind.message_eq {e e' : MachineError} (h : e.SameKind e') :
    e.message = e'.message := by
  cases h <;> rfl

theorem MachineError.SameKind.isFatal_eq {e e' : MachineError} (h : e.SameKind e') :
    e.isFatal = e'.isFatal := by
  cases h <;> rfl

theorem Memory.sameKind_outside {M M' : Memory} (h : M.size = M'.size) (a : Int) :
    (M.outside a).SameKind (M'.outside a) := by
  by_cases hw : Text.IsWritable a
  · rw [outside_of_writable hw, outside_of_writable hw, h]
    exact .address _ _
  · rw [outside_of_not_writable hw, outside_of_not_writable hw]
    exact .number _

namespace Machine

/-! ## Peers -/

/-- The machines are the same but for their memories and the registers of the instruction at work. -/
structure Peers (k k' : Machine) : Prop where
  accumulator : k.regs.accumulator = k'.regs.accumulator
  pc : k.regs.pc = k'.regs.pc
  state : k.state = k'.state
  input : k.input = k'.input
  output : k.output = k'.output
  warnings : k.warnings = k'.warnings
  cycles : k.cycles = k'.cycles
  resume : k.resume = k'.resume
  journal : k.journal = k'.journal

/-- Both attempts are completed, or both fail for one reason. -/
inductive PeerAttempts (r r' : Attempt) : Prop
  | completed (h : Peers r.machine r'.machine) (hf : r.failure = none) (hf' : r'.failure = none)
  | failed {e e' : MachineError} (h : Peers r.machine r'.machine) (he : e.SameKind e')
      (hf : r.failure = some e) (hf' : r'.failure = some e')

namespace Peers

variable {k k' : Machine}

theorem setAccumulator (h : Peers k k') (n : Int) :
    Peers (k.setAccumulator n) (k'.setAccumulator n) :=
  { h with accumulator := rfl }

theorem setPc (h : Peers k k') (a : Int) : Peers (k.setPc a) (k'.setPc a) := { h with pc := rfl }

theorem note (h : Peers k k') (t : Note) : Peers (k.note t) (k'.note t) :=
  { h with journal := congrArg (·.push (.note t)) h.journal }

theorem warn (h : Peers k k') (text : String) : Peers (k.warn text) (k'.warn text) :=
  { h.note (.warning text) with warnings := congrArg (·.push text) h.warnings }

theorem done (h : Peers k k') : PeerAttempts k.done k'.done := .completed h rfl rfl

theorem fail (h : Peers k k') {e e' : MachineError} (he : e.SameKind e') :
    PeerAttempts (k.fail e) (k'.fail e') := by
  refine .failed ?_ he (fail_failure k e) (fail_failure k' e')
  unfold Machine.fail
  rw [he.isFatal_eq, h.pc, he.message_eq]
  split
  · exact { h.note _ with state := rfl }
  · exact h

theorem faultIn (h : Peers k k') (op op' : Opcode) (f : Fault) :
    PeerAttempts (k.faultIn op f) (k'.faultIn op' f) := by
  unfold Machine.faultIn
  rw [h.pc]
  exact h.fail (.fault f _ _ _)

theorem advance (h : Peers k k') : Peers k.advance k'.advance := by
  have hcycles : Peers { k with cycles := k.cycles + 1 } { k' with cycles := k'.cycles + 1 } :=
    { h with cycles := congrArg (· + 1) h.cycles }
  have hrunning : ({ k with cycles := k.cycles + 1 } : Machine).isRunning =
      ({ k' with cycles := k'.cycles + 1 } : Machine).isRunning := by
    unfold isRunning
    rw [hcycles.state]
  unfold Machine.advance
  dsimp only
  rw [hrunning, h.pc]
  split
  · exact hcycles.setPc _
  · exact hcycles

/-! ## Applying a value -/

/-- A result is accepted or refused whatever the operation is. -/
theorem setChecked (h : Peers k k') (op op' : Opcode) {n : Int} (hn : n.natAbs < 10 ^ 6) :
    PeerAttempts (k.setChecked op n) (k'.setChecked op' n) := by
  unfold Machine.setChecked
  split
  · exact (h.setAccumulator n).done
  · rw [Text.writeNumeral_of_lt (by decide) hn]
    exact h.faultIn op op' (.overflow n)

theorem divideBy (h : Peers k k') (op op' : Opcode) (v : Int)
    (ha : Word.inRange k.regs.accumulator = true) :
    PeerAttempts (k.divideBy op v) (k'.divideBy op' v) := by
  unfold Machine.divideBy
  split
  · exact ((h.warn _).setAccumulator 0).done
  · have hquotient : (k.regs.accumulator.tdiv v).natAbs ≤ 9999 := by
      rw [Int.natAbs_tdiv]
      exact Nat.le_trans (Nat.div_le_self _ _) (Word.natAbs_le_of_inRange ha)
    rw [← h.accumulator]
    exact h.setChecked op op' (by omega)

theorem remainderBy (h : Peers k k') (op op' : Opcode) (v : Int) :
    PeerAttempts (k.remainderBy op v) (k'.remainderBy op' v) := by
  unfold Machine.remainderBy
  split
  · exact h.faultIn op op' .moduloByZero
  · rw [← h.accumulator]
    exact (h.setAccumulator _).done

/-- A value of two digits is applied in the same way by both forms. -/
theorem applyValue (h : Peers k k') {op imm : Opcode} (himm : op.immediate? = some imm)
    (ha : Word.inRange k.regs.accumulator = true) {v : Int} (hv : 0 ≤ v ∧ v ≤ 99) :
    PeerAttempts (k.applyValue op v) (k'.applyValue imm v) := by
  have hacc := Word.natAbs_le_of_inRange ha
  have hproduct : (k.regs.accumulator * v).natAbs < 10 ^ 6 := by
    have hle : v.natAbs ≤ 99 := by omega
    rw [Int.natAbs_mul]
    exact Nat.lt_of_le_of_lt (Nat.mul_le_mul hacc hle) (by decide)
  unfold Machine.applyValue
  cases op with
  | load =>
    obtain rfl := Option.some.inj himm
    exact (h.setAccumulator v).done
  | add =>
    obtain rfl := Option.some.inj himm
    dsimp only
    rw [← h.accumulator]
    exact h.setChecked _ _ (by omega)
  | subtract =>
    obtain rfl := Option.some.inj himm
    dsimp only
    rw [← h.accumulator]
    exact h.setChecked _ _ (by omega)
  | multiply =>
    obtain rfl := Option.some.inj himm
    dsimp only
    rw [← h.accumulator]
    exact h.setChecked _ _ hproduct
  | divide =>
    obtain rfl := Option.some.inj himm
    exact h.divideBy _ _ v ha
  | modulo =>
    obtain rfl := Option.some.inj himm
    exact h.remainderBy _ _ v
  | _ => cases himm

end Peers

/-! ## Both forms in one place -/

/-- The machine with a word in the cell at its program counter. -/
def withWord (m : Machine) (w : Int) : Machine :=
  { m with memory := m.memory.set m.regs.pc (.num w) }

theorem execute_of_immediate? {op imm : Opcode} (h : op.immediate? = some imm) (k : Machine)
    (n : Int) : k.execute op n = k.applyCell op n ∧ k.execute imm n = k.applyValue imm n := by
  cases op with
  | load | add | subtract | multiply | divide | modulo =>
    obtain rfl := Option.some.inj h
    exact ⟨rfl, rfl⟩
  | _ => cases h

/-- Neither form stores anything. -/
theorem memory_of_immediate? {op imm : Opcode} (h : op.immediate? = some imm) (k : Machine)
    (n : Int) : (k.execute op n).machine.memory = k.memory ∧
      (k.execute imm n).machine.memory = k.memory := by
  have hop := carried_execute k op n
  have himm := carried_execute k imm n
  cases op with
  | load | add | subtract | multiply | divide | modulo =>
    obtain rfl := Option.some.inj h
    exact ⟨hop.memory (by decide) (by decide), himm.memory (by decide) (by decide)⟩
  | _ => cases h

theorem cycle_withWord {m : Machine} {op : Opcode} {n : Int} (hn : 0 ≤ n ∧ n ≤ 99)
    (hpc : m.memory.holds m.regs.pc = true) :
    let k := m.withWord (Word.join op.code n)
    let r := (k.fetch (Word.join op.code n)).execute op n
    k.cycle = if r.failure.isNone then r.machine.advance.done else r := by
  have hw : (m.withWord (Word.join op.code n)).memory.read? m.regs.pc =
      some (.num (Word.join op.code n)) := Memory.read?_set_self _ hpc
  dsimp only
  rw [cycle_of_num hw, dispatch_join _ op hn.1 hn.2]

/-- Peers stay peers when both have completed their instruction, and so do their failures. -/
theorem PeerAttempts.finish {r r' : Attempt} (h : PeerAttempts r r') :
    PeerAttempts (if r.failure.isNone then r.machine.advance.done else r)
      (if r'.failure.isNone then r'.machine.advance.done else r') := by
  cases h with
  | completed h hf hf' =>
    rw [hf, hf']
    exact h.advance.done
  | failed h he hf hf' =>
    rw [hf, hf']
    exact .failed h he hf hf'

/-- What an attempt leaves in memory is not touched by moving on. -/
theorem memory_finish (r : Attempt) :
    (if r.failure.isNone then r.machine.advance.done else r).machine.memory = r.machine.memory := by
  split
  · exact advance_memory _
  · rfl

/-- The cycles of two machines end in the same way: both are completed or both fail, for one reason and
    with one message, and then the machines are the same but for their memories, which have not
    changed, and the registers of the instruction at work. -/
structure SameOutcome (m m' : Machine) : Prop where
  outcome : m.cycle.failure = none ∧ m'.cycle.failure = none ∨
    ∃ e e', m.cycle.failure = some e ∧ m'.cycle.failure = some e' ∧ e.SameKind e' ∧
      e.message = e'.message
  machines : Peers m.cycle.machine m'.cycle.machine
  memory : m.cycle.machine.memory = m.memory
  memory' : m'.cycle.machine.memory = m'.memory

theorem PeerAttempts.sameOutcome {m m' : Machine} (h : PeerAttempts m.cycle m'.cycle)
    (hm : m.cycle.machine.memory = m.memory) (hm' : m'.cycle.machine.memory = m'.memory) :
    SameOutcome m m' := by
  cases h with
  | completed h hf hf' => exact ⟨.inl ⟨hf, hf'⟩, h, hm, hm'⟩
  | failed h he hf hf' => exact ⟨.inr ⟨_, _, hf, hf', he, he.message_eq⟩, h, hm, hm'⟩

/-- Where there is no cell at the program counter there is nothing to put a word into. -/
theorem sameOutcome_of_not_holds {m : Machine} (hpc : m.memory.holds m.regs.pc = false)
    (w w' : Int) : SameOutcome (m.withWord w) (m.withWord w') := by
  have hcycle : ∀ w, (m.withWord w).cycle =
      (m.withWord w).fail ((m.withWord w).memory.outside m.regs.pc) := by
    intro w
    have hnone : (m.withWord w).memory.read? m.regs.pc = none := by
      unfold withWord
      rw [Memory.read?_set, hpc, if_neg (fun h => nomatch h.2)]
      exact Memory.read?_eq_none_iff.2 hpc
    exact cycle_of_none hnone
  have hsize : (m.withWord w).memory.size = (m.withWord w').memory.size :=
    (Memory.size_set ..).trans (Memory.size_set ..).symm
  have hpeers : Peers (m.withWord w) (m.withWord w') :=
    ⟨rfl, rfl, rfl, rfl, rfl, rfl, rfl, rfl, rfl⟩
  refine PeerAttempts.sameOutcome ?_ ?_ ?_
  · rw [hcycle, hcycle]
    exact hpeers.fail (Memory.sameKind_outside hsize _)
  · rw [hcycle]
    exact fail_memory _ _
  · rw [hcycle]
    exact fail_memory _ _

/-- Loading a cell, or calculating with it, and doing the same with its value as the operand come to
    the same thing: in place of each other at the program counter they have one outcome, and neither
    changes memory. The value is what the cell holds while the memory form is in its place. -/
theorem immediate_form (m : Machine) {op imm : Opcode} {a v : Int}
    (himm : op.immediate? = some imm) (hacc : Word.inRange m.regs.accumulator = true) (ha : a < 100)
    (hcell : (m.withWord (Word.join op.code a)).memory.read? a = some (.num v))
    (hv : 0 ≤ v ∧ v ≤ 99) :
    SameOutcome (m.withWord (Word.join op.code a)) (m.withWord (Word.join imm.code v)) := by
  cases hpc : m.memory.holds m.regs.pc with
  | false => exact sameOutcome_of_not_holds hpc _ _
  | true =>
    have ha0 : 0 ≤ a := (Memory.holds_iff.1 (Memory.holds_of_read? hcell)).1
    have ha99 : 0 ≤ a ∧ a ≤ 99 := ⟨ha0, by omega⟩
    let k := (m.withWord (Word.join op.code a)).fetch (Word.join op.code a)
    let k' := (m.withWord (Word.join imm.code v)).fetch (Word.join imm.code v)
    have hpeers : Peers k k' := ⟨rfl, rfl, rfl, rfl, rfl, rfl, rfl, rfl, rfl⟩
    have hcarried : PeerAttempts (k.execute op a) (k'.execute imm v) := by
      have hread : k.memory.read? a = some (.num v) := hcell
      rw [(execute_of_immediate? himm k a).1, (execute_of_immediate? himm k' v).2]
      unfold applyCell
      rw [hread]
      exact hpeers.applyValue himm hacc hv
    refine PeerAttempts.sameOutcome ?_ ?_ ?_
    · rw [cycle_withWord ha99 hpc, cycle_withWord hv hpc]
      exact hcarried.finish
    · rw [cycle_withWord ha99 hpc, memory_finish]
      exact (memory_of_immediate? himm k a).1
    · rw [cycle_withWord hv hpc, memory_finish]
      exact (memory_of_immediate? himm k' v).2

/-- Both remainders by zero fail, and a product leaves the range of words in both forms. -/
theorem immediate_form_refused :
    let m := (new ⟨#[.num 0, .num 0, .num 7], by decide⟩ []).setAccumulator (-9000)
    SameOutcome (m.withWord (Word.join Opcode.modulo.code 1))
        (m.withWord (Word.join Opcode.moduloImm.code 0)) ∧
      SameOutcome (m.withWord (Word.join Opcode.multiply.code 2))
        (m.withWord (Word.join Opcode.multiplyImm.code 7)) ∧
      (m.withWord (Word.join Opcode.multiply.code 2)).cycle.failure =
        some (.fault ⟨.overflow (-63000), some 0, some 34⟩) := by
  intro m
  exact ⟨immediate_form m rfl (by decide) (by decide) (by decide) (by decide),
    immediate_form m rfl (by decide) (by decide) (by decide) (by decide), by decide +kernel⟩

end Machine

end DecimalMachine
