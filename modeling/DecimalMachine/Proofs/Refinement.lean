import DecimalMachine.Proofs.Placement
import DecimalMachine.Proofs.Schedule
import DecimalMachine.Proofs.SourceMachine
/-
  Refinement: a program that has been assembled does what its source says. `Refines p m s` says
  that the machine `m` is where the source is in its state `s`: every variable is in its cell, the
  program counter is at the instruction of the index, and all else is the same. An operation with
  a resolved operand takes both one step further (`Refines.obey`), and as the code stays as it was
  loaded, so does every cycle (`Refines.cycle`) and every step of an emulator
  (`assembled_refines`).
-/
namespace DecimalMachine

/-! ## Failures -/

namespace Source

/-- The fault of the machine: it knows the variables by their addresses. -/
def Cause.fault (lines : List Line) : Cause → Fault
  | .overflow result => .overflow result
  | .moduloByZero => .moduloByZero
  | .inputOutOfRange value => .inputOutOfRange value
  | .inputExhausted => .inputExhausted
  | .notNumeric name token => .notNumeric ((declared lines).idxOf name) token

/-- The error of the machine when the instruction at an index fails. -/
def Failure.error (lines : List Line) (index : Nat) : Failure → MachineError
  | .fault c op => .fault ⟨c.fault lines, some ((origin lines + index : Nat) : Int), some op.code⟩
  | .number e => .number e

end Source

/-- The error in which a step or a run has ended. -/
def Outcome.failure? : Outcome → Option MachineError
  | .failed e => some e
  | _ => none

namespace Machine

open Assembly Source

/-! ## Machines that are where their source is -/

/-- The machine is where the source of a program is. -/
structure Refines (p : Program) (m : Machine) (s : Source.State) : Prop where
  cells : ∀ v ∈ p.symbols, m.memory.read? v.address = some (s.store v.name)
  accumulator : m.regs.accumulator = s.accumulator
  pc : m.regs.pc = ((p.origin + s.index : Nat) : Int)
  state : m.state = s.state
  input : m.input = s.input
  output : m.output = s.output
  warnings : m.warnings = s.warnings

variable {lines : List Line} {p : Program} {m : Machine} {s : Source.State} {M : Memory}

theorem Refines.of_alike {m' : Machine} (h : Refines p m s) (ha : Likeness.exact.Alike m' m) :
    Refines p m' s := by
  have hm : m'.memory = m.memory := ha.memory
  have hi : m'.input = m.input := ha.input
  exact ⟨hm ▸ h.cells, ha.regs ▸ h.accumulator, ha.regs ▸ h.pc, ha.state ▸ h.state, hi ▸ h.input,
    ha.output ▸ h.output, ha.warnings ▸ h.warnings⟩

theorem Refines.isRunning (h : Refines p m s) : m.isRunning = decide (s.state = .running) := by
  unfold Machine.isRunning
  rw [h.state]

theorem Refines.fetch (h : Refines p m s) (w : Int) : Refines p (m.fetch w) s := { h with }

theorem Refines.setAccumulator (h : Refines p m s) (v : Int) :
    Refines p (m.setAccumulator v) { s with accumulator := v } := { h with accumulator := rfl }

theorem Refines.warn (h : Refines p m s) (text : String) :
    Refines p (m.warn text) { s with warnings := s.warnings.push text } :=
  { h with warnings := congrArg (·.push text) h.warnings }

theorem Refines.halt (h : Refines p m s) : Refines p m.halt { s with state := .halted } :=
  { h with state := rfl }

theorem Refines.setPc (h : Refines p m s) (i : Nat) :
    Refines p (m.setPc ((p.origin + i : Nat) : Int)) { s with index := i } := { h with pc := rfl }

theorem Refines.debug (h : Refines p m s) (text : String) : Refines p (m.debug text) s :=
  { h with }

theorem Refines.takeToken (h : Refines p m s) :
    Refines p m.takeToken { s with input := s.input.tail } :=
  { h with input := congrArg List.tail h.input }

/-- Storing in the cell of a variable leaves the other variables alone. -/
theorem Refines.put (h : Refines p m s) (hl : Lists lines p.symbols) {v : Symbol}
    (hv : v ∈ p.symbols) (c : Cell) :
    Refines p { m with memory := m.memory.set v.address c } (s.put v.name c) := by
  refine { h with cells := fun u hu => ?_ }
  show (m.memory.set v.address c).read? u.address =
    some (if u.name = v.name then c else s.store u.name)
  by_cases hn : u.name = v.name
  · have ha : u.address = v.address := by rw [hl.address_eq hu, hl.address_eq hv, hn]
    rw [if_pos hn, ha, Memory.read?_set_self c (Memory.holds_of_read? (h.cells v hv))]
  · have ha : v.address ≠ u.address := by
      rw [hl.address_eq hu, hl.address_eq hv]
      intro he
      have hu := hl.mem_declared.2 ⟨u, hu, rfl⟩
      exact hn ((List.idxOf_inj hu).1 he.symm)
    rw [if_neg hn, Memory.read?_set_of_ne c (by omega)]
    exact h.cells u hu

/-! ## Instructions that are over -/

/-- What a cycle makes of the word that it has carried out. -/
def finish (r : Attempt) : Attempt := if r.failure.isNone then r.machine.advance.done else r

theorem finish_done (m : Machine) : finish m.done = m.advance.done := rfl

theorem finish_fail (m : Machine) (e : MachineError) : finish (m.fail e) = m.fail e := by
  unfold finish
  rw [fail_failure]
  rfl

/-- An instruction at an index does to the machine what a step does to the source. -/
structure Matches (lines : List Line) (p : Program) (index : Nat) (r : Attempt)
    (t : Source.Step) : Prop where
  failure : (finish r).failure = t.failure.map (Source.Failure.error lines index)
  machine : Refines p (finish r).machine t.state

theorem advance_of_running (h : m.isRunning = true) :
    m.advance = ({ m with cycles := m.cycles + 1 } : Machine).setPc (m.regs.pc + 1) := by
  unfold Machine.advance isRunning
  exact if_pos h

variable {index : Nat}

theorem Refines.goOn (h : Refines p m s) (hrun : s.state = .running) :
    Matches lines p index m.done s.goOn := by
  refine ⟨rfl, ?_⟩
  have hcycles : Refines p { m with cycles := m.cycles + 1 } s := { h with }
  have hpc : m.regs.pc + 1 = ((p.origin + (s.index + 1) : Nat) : Int) := by
    rw [h.pc]
    omega
  rw [finish_done, advance_of_running (by rw [h.isRunning, hrun]; rfl), hpc]
  exact hcycles.setPc _

theorem Refines.goTo (h : Refines p m s) (hrun : s.state = .running) (i : Nat) :
    Matches lines p index (m.jumpTo ((p.origin + i : Nat) : Int)).done (s.goTo i) := by
  refine ⟨rfl, ?_⟩
  have hcycles : Refines p { m with cycles := m.cycles + 1 } s := { h with }
  have hpc : (m.jumpTo ((p.origin + i : Nat) : Int)).regs.pc + 1 = ((p.origin + i : Nat) : Int) :=
    Int.sub_add_cancel _ _
  have hj : (m.jumpTo ((p.origin + i : Nat) : Int)).isRunning = true := by
    show m.isRunning = true
    rw [h.isRunning, hrun]
    rfl
  rw [finish_done, advance_of_running hj, hpc]
  exact hcycles.setPc _

theorem Refines.stop (h : Refines p m s) :
    Matches lines p index m.halt.done ⟨{ s with state := .halted }, none⟩ := by
  refine ⟨rfl, ?_⟩
  rw [finish_done]
  exact { h.halt with }

theorem Refines.faultIn (h : Refines p m s) (ho : p.origin = origin lines) (op : Opcode)
    (c : Cause) : Matches lines p s.index (m.faultIn op (c.fault lines)) (s.fail op c) := by
  unfold Machine.faultIn
  constructor
  · rw [finish_fail, fail_failure, h.pc, ho]
    rfl
  · rw [finish_fail]
    exact { h with state := rfl }

theorem Refines.failNumber (h : Refines p m s) (e : DigitLimit) :
    Matches lines p index (m.fail (.number e)) ⟨s, some (.number e)⟩ := by
  constructor
  · rw [finish_fail, fail_failure]
    rfl
  · rw [finish_fail]
    exact h

/-! ## Values -/

/-- Results with few digits are accepted, or refused for being out of range. -/
theorem Refines.setChecked (h : Refines p m s) (ho : p.origin = origin lines)
    (hrun : s.state = .running) (op : Opcode) {v : Int} (hv : v.natAbs < 10 ^ 8) :
    Matches lines p s.index (m.setChecked op v) (s.accept op v) := by
  unfold Machine.setChecked State.accept
  cases hr : Word.inRange v with
  | true =>
    rw [if_pos rfl, if_pos rfl]
    exact (h.setAccumulator v).goOn hrun
  | false =>
    rw [if_neg Bool.false_ne_true, if_neg Bool.false_ne_true,
      Text.writeNumeral_of_lt (by decide) hv]
    exact h.faultIn ho op (.overflow v)

theorem Refines.divideBy (h : Refines p m s) (ho : p.origin = origin lines)
    (hrun : s.state = .running) (op : Opcode) (v : Int)
    (ha : Word.inRange s.accumulator = true) :
    Matches lines p s.index (m.divideBy op v)
      (if v = 0 then
        { s with accumulator := 0, warnings := s.warnings.push zeroDivisorMessage }.goOn
      else s.accept op (s.accumulator.tdiv v)) := by
  unfold Machine.divideBy
  rw [h.accumulator]
  split
  · exact ((h.warn _).setAccumulator 0).goOn hrun
  · have hle : (s.accumulator.tdiv v).natAbs ≤ 9999 := by
      rw [Int.natAbs_tdiv]
      exact Nat.le_trans (Nat.div_le_self _ _) (Word.natAbs_le_of_inRange ha)
    exact h.setChecked ho hrun op (by omega)

theorem Refines.remainderBy (h : Refines p m s) (ho : p.origin = origin lines)
    (hrun : s.state = .running) (op : Opcode) (v : Int) :
    Matches lines p s.index (m.remainderBy op v)
      (if v = 0 then s.fail op .moduloByZero
      else { s with accumulator := s.accumulator.tmod v }.goOn) := by
  unfold Machine.remainderBy
  rw [h.accumulator]
  split
  · exact h.faultIn ho op .moduloByZero
  · exact (h.setAccumulator _).goOn hrun

theorem Refines.applyValue (h : Refines p m s) (ho : p.origin = origin lines)
    (hrun : s.state = .running) {op : Opcode}
    (hop : op = .load ∨ op = .loadImm ∨ op.isArithmetic = true) {v : Int}
    (ha : Word.inRange s.accumulator = true) (hv : Word.inRange v = true) :
    Matches lines p s.index (m.applyValue op v) (s.calculate op v) := by
  have ha' := Word.natAbs_le_of_inRange ha
  have hv' := Word.natAbs_le_of_inRange hv
  have hproduct : (s.accumulator * v).natAbs < 10 ^ 8 := by
    rw [Int.natAbs_mul]
    exact Nat.lt_of_le_of_lt (Nat.mul_le_mul ha' hv') (by decide)
  unfold Machine.applyValue State.calculate
  rw [h.accumulator]
  cases op with
  | load | loadImm => exact (h.setAccumulator v).goOn hrun
  | add | addImm => exact h.setChecked ho hrun _ (by omega)
  | subtract | subtractImm => exact h.setChecked ho hrun _ (by omega)
  | multiply | multiplyImm => exact h.setChecked ho hrun _ hproduct
  | divide | divideImm => exact h.divideBy ho hrun _ v ha
  | modulo | moduloImm => exact h.remainderBy ho hrun _ v
  | _ => rcases hop with hop | hop | hop <;> cases hop

/-! ## Variables -/

theorem Refines.store (h : Refines p m s) (hl : Lists lines p.symbols) (hrun : s.state = .running)
    {v : Symbol} (hv : v ∈ p.symbols) (c : Cell) :
    Matches lines p index (m.store v.address c) (s.put v.name c).goOn := by
  unfold Machine.store
  rw [if_pos (Memory.holds_of_read? (h.cells v hv))]
  exact (h.put hl hv c).goOn hrun

theorem Refines.writeFrom (h : Refines p m s) (hrun : s.state = .running)
    (hm : m.memory.Ranged) {v : Symbol} (hv : v ∈ p.symbols) :
    Matches lines p index (m.writeFrom v.address)
      { s with output := s.output.push (lineOf (s.store v.name)) }.goOn := by
  have hc := h.cells v hv
  unfold Machine.writeFrom
  rw [hc]
  dsimp only
  rw [checkLine_of_ranged hm hc]
  refine Refines.goOn ?_ hrun
  exact { h with output := congrArg (·.push (lineOf (s.store v.name))) h.output }

theorem Refines.readInto (h : Refines p m s) (hl : Lists lines p.symbols)
    (hrun : s.state = .running) {v : Symbol} (hv : v ∈ p.symbols) :
    Matches lines p s.index (m.readInto v.address) (s.read v.name) := by
  have ht := h.takeToken
  unfold Machine.readInto State.read
  rw [h.input]
  cases hin : s.input with
  | nil =>
    rw [hin, List.tail_nil] at ht
    have hs : { s with input := [] } = s := by rw [← hin]
    rw [hs] at ht
    exact ht.faultIn hl.length .read .inputExhausted
  | cons t rest =>
    rw [hin, List.tail_cons] at ht
    dsimp only [List.head?_cons]
    cases Word.parse t with
    | error e => exact ht.failNumber e
    | ok n =>
      cases n with
      | none => exact (ht.debug _).store hl hrun hv (.raw t)
      | some n =>
        dsimp only
        split
        · exact ht.store hl hrun hv (.num n)
        · exact ht.faultIn hl.length .read (.inputOutOfRange n)

theorem Refines.applyCell (h : Refines p m s) (hl : Lists lines p.symbols)
    (hrun : s.state = .running) {op : Opcode}
    (hop : op = .load ∨ op = .loadImm ∨ op.isArithmetic = true)
    (ha : Word.inRange s.accumulator = true) (hm : m.memory.Ranged) {v : Symbol}
    (hv : v ∈ p.symbols) :
    Matches lines p s.index (m.applyCell op v.address)
      (match s.store v.name with
        | .num n => s.calculate op n
        | .raw t => s.fail op (.notNumeric v.name t)) := by
  have hc := h.cells v hv
  unfold Machine.applyCell
  rw [hc]
  cases hs : s.store v.name with
  | num n =>
    rw [hs] at hc
    exact h.applyValue hl.length hrun hop ha (hm.read? hc)
  | raw t =>
    rw [hl.address_eq hv]
    exact h.faultIn hl.length op (.notNumeric v.name t)

/-- An operation on a variable. -/
theorem Refines.access (h : Refines p m s) (hl : Lists lines p.symbols)
    (hrun : s.state = .running) {op : Opcode} (hop : op.addressesCell = true)
    (ha : Word.inRange s.accumulator = true) (hm : m.memory.Ranged) {v : Symbol}
    (hv : v ∈ p.symbols) :
    Matches lines p s.index (m.execute op v.address) (s.access op v.name) := by
  cases op with
  | read => exact h.readInto hl hrun hv
  | write => exact h.writeFrom hrun hm hv
  | store =>
    show Matches lines p s.index (m.store v.address (.num m.regs.accumulator)) _
    rw [h.accumulator]
    exact h.store hl hrun hv (.num s.accumulator)
  | load => exact h.applyCell hl hrun (.inl rfl) ha hm hv
  | add | subtract | divide | modulo | multiply =>
    exact h.applyCell hl hrun (.inr (.inr rfl)) ha hm hv
  | _ => cases hop

/-! ## Operations -/

theorem Refines.jump (h : Refines p m s) (hrun : s.state = .running) {op : Opcode}
    (hop : op.isJump = true) (i : Nat) :
    Matches lines p s.index (m.execute op ((p.origin + i : Nat) : Int))
      (if s.jumps op then s.goTo i else s.goOn) := by
  cases op with
  | jump => exact h.goTo hrun i
  | jumpNegative | jumpZero =>
    simp only [execute, State.jumps, h.accumulator, decide_eq_true_eq]
    split
    · exact h.goTo hrun i
    · exact h.goOn hrun
  | _ => cases hop

theorem execute_of_isImmediate {op : Opcode} (hop : op.isImmediate = true) (m : Machine)
    (n : Int) : m.execute op n = m.applyValue op n := by
  cases op <;> first | rfl | cases hop

theorem loads_or_calculates_of_isImmediate {op : Opcode} (hop : op.isImmediate = true) :
    op = .load ∨ op = .loadImm ∨ op.isArithmetic = true := by
  cases op <;> first | exact .inr (.inr rfl) | exact .inr (.inl rfl) | cases hop

theorem obey_of_operand {l : Line} {mnemonic x : String} {extra : List String} {op : Opcode}
    (hs : l.statement = .instruction mnemonic (some x) extra)
    (hm : Opcode.ofMnemonic? mnemonic = some op) (ht : op.takesOperand = true) :
    s.obey lines l = s.carryOut lines op x := by
  unfold State.obey
  rw [hs]
  dsimp only
  rw [hm]
  cases op <;> first | rfl | cases ht

/-- Carrying out an instruction is what its line says. -/
theorem Refines.obey (h : Refines p m s) (hl : Lists lines p.symbols) (hrun : s.state = .running)
    (ha : Word.inRange s.accumulator = true) (hm : m.memory.Ranged) {l : Line} {address : Nat}
    {i : Instruction} (he : Encodes lines l address i)
    (hcell : i.opcode.addressesCell = true → i.resolution = some .variable)
    (hjump : i.opcode.isJump = true → i.resolution = some .label) :
    Matches lines p s.index (m.execute i.opcode i.operand) (s.obey lines l) := by
  cases he with
  | @bare mnemonic operand extra op hs hname ht =>
    obtain rfl : op = .halt := by simpa [Opcode.takesOperand] using ht
    have hobey : s.obey lines l = ⟨{ s with state := .halted }, none⟩ := by
      unfold State.obey
      rw [hs]
      dsimp only
      rw [hname]
    rw [hobey]
    exact h.stop
  | @operand mnemonic x extra op n res hs hname ht hx hn =>
    rw [obey_of_operand hs hname ht]
    unfold State.carryOut
    cases hj : op.isJump with
    | true =>
      obtain rfl : res = .label := Option.some.inj (hjump hj)
      obtain ⟨k, hk, rfl⟩ := target?_of_means hx
      rw [if_pos rfl, hk, ← show p.origin = origin lines from hl.length]
      exact h.jump hrun hj k
    | false =>
      rw [if_neg Bool.false_ne_true]
      cases hi : op.isImmediate with
      | true =>
        have hv : Word.inRange (n : Int) = true := Word.inRange_iff.2 ⟨by omega, by omega⟩
        rw [if_pos rfl, number?_of_means hx, execute_of_isImmediate hi]
        exact h.applyValue hl.length hrun (loads_or_calculates_of_isImmediate hi) ha hv
      | false =>
        have hc : op.addressesCell = true := by
          unfold Opcode.addressesCell
          rw [ht, hi, hj]
          rfl
        obtain rfl : res = .variable := Option.some.inj (hcell hc)
        obtain ⟨hv, rfl⟩ := mem_of_means hx
        obtain ⟨v, hmem, rfl⟩ := hl.mem_declared.1 hv
        rw [if_neg Bool.false_ne_true, ← hl.address_eq hmem]
        exact h.access hl hrun hc ha hm hmem

/-! ## Cycles -/

/-- As long as the code is where it was loaded, a cycle of the machine is a step of the source. -/
theorem Refines.cycle (h : Refines p m s) (hp : Makes lines p) (hs : p.Symbolic)
    (hsound : m.Sound M.size) (hsize : p.size ≤ M.size) (hc : Confined (p.placed M) p.origin m)
    (hrun : s.state = .running) (hi : s.index < (code lines).length) :
    m.cycle.failure = (Source.step lines s).failure.map (Source.Failure.error lines s.index) ∧
      Refines p m.next (Source.step lines s).state := by
  have hi' : s.index < p.instructions.length := hp.length.symm ▸ hi
  have hmem : p.instructions[s.index] ∈ p.instructions := List.getElem_mem hi'
  have hword : m.memory.read? m.regs.pc = some (.num p.instructions[s.index].word) := by
    rw [h.pc, hc.cells _ (by omega), Program.read?_placed_instruction hsize hi']
  obtain ⟨hw, hn⟩ := hp.word_eq hmem
  have hstep : Source.step lines s = s.obey lines (code lines)[s.index] := by
    unfold Source.step
    rw [hrun, List.getElem?_eq_getElem hi]
  have hmatches := (h.fetch p.instructions[s.index].word).obey hp.tables.symbols hrun
    (h.accumulator ▸ hsound.accumulator) hsound.ranged (hp.encodes s.index hi' hi)
    (hs.cells _ hmem) (hs.jumps _ hmem)
  have hcycle : m.cycle = finish ((m.fetch p.instructions[s.index].word).execute
      p.instructions[s.index].opcode p.instructions[s.index].operand) := by
    rw [cycle_of_num hword, hw, dispatch_join m _ (Int.natCast_nonneg _) (by omega)]
    rfl
  unfold next
  rw [hcycle, hstep]
  exact ⟨hmatches.failure, hmatches.machine⟩

theorem Refines.iterate (h : Refines p m s) (hp : Makes lines p) (hs : p.Symbolic)
    (hsound : m.Sound M.size) (hsize : p.size ≤ M.size) (hc : Confined (p.placed M) p.origin m)
    {k : Nat} (hrun : ∀ i < k, (Machine.next^[i] m).isRunning = true)
    (hi : ∀ j < k, (Source.run lines s j).index < (code lines).length) :
    Refines p (Machine.next^[k] m) (Source.run lines s k) := by
  induction k with
  | zero => exact h
  | succ k ih =>
    have hrun' : ∀ i < k, (Machine.next^[i] m).isRunning = true := fun i hik => hrun i (by omega)
    have hk := ih hrun' fun j hj => hi j (by omega)
    have hr : (Source.run lines s k).state = .running := by
      have hr := hrun k (by omega)
      rw [hk.isRunning] at hr
      exact of_decide_eq_true hr
    rw [Function.iterate_succ_apply']
    exact (hk.cycle hp hs (hsound.iterate hrun') hsize
      (hc.iterate (parted_placed hp hs hsize) hrun') hr (hi k (by omega))).2

end Machine

/-! ## Emulators -/

namespace Emulator

open Assembly Likeness Machine

variable {lines : List Line} {p : Program} {e : Emulator}

theorem step_of_running (hm : e.machine.isRunning = true) (hp : e.machine.isPastEnd = false) :
    exact.Alike e.step.1.machine e.machine.next ∧
      e.step.2.failure? = e.machine.cycle.failure := by
  obtain ⟨k, o, ht, hk, ho⟩ := stepTraced_of_running hm hp
  obtain ⟨hf, hn⟩ := cycle_exact hk
  rw [step_eq, ht, ← hf]
  refine ⟨hn, ?_⟩
  cases hc : k.cycle.failure with
  | some err => rw [hc] at ho; rw [show o = .failed err from ho]; rfl
  | none => rw [hc] at ho; rw [show o = .stopped _ from ho]; rfl

theorem step_of_not_running (hm : e.machine.isRunning = false) :
    e.step = (e, .stopped (e.machine.stop .notRunning 0)) := by
  rw [step_eq, stepTraced_of_not_running hm]

/-- What a program without warnings leaves of an emulator when it is loaded. -/
theorem load_of_makes (h : Makes lines p) (hsize : p.size ≤ e.machine.memory.size) :
    ∃ k, e.load p.toImage = ({ e with machine := k, image := some p.toImage }, none) ∧
      exact.Alike k
        ({ e.machine with memory := p.placed e.machine.memory }.reset p.origin) := by
  obtain ⟨k, hload, hk, -⟩ := load_of_loadInto (h.loadInto hsize)
  exact ⟨k, hload, hk⟩

theorem sound_load (h : Makes lines p) (hsize : p.size ≤ e.machine.memory.size) :
    (e.load p.toImage).1.Sound e.machine.memory.size := by
  obtain ⟨k, hload, hk⟩ := load_of_makes h hsize
  have hkm : k.memory = p.placed e.machine.memory := hk.memory
  have hplaced : (p.placed e.machine.memory).size = e.machine.memory.size := p.size_placed _
  have hranged : (p.placed e.machine.memory).Ranged :=
    Image.ranged_of_loadInto (Memory.Ranged.clear _) (h.loadInto hsize)
  have hle : p.origin ≤ (p.placed e.machine.memory).size := by
    rw [hplaced]
    exact Nat.le_trans (Nat.le_add_right _ _) hsize
  have hs := sound_reset { e.machine with memory := p.placed e.machine.memory } p.origin hranged
    (Int.natCast_nonneg _) (Int.ofNat_le.2 hle)
  have hs : Machine.Sound e.machine.memory.size _ := hplaced ▸ hs
  rw [hload]
  refine ⟨hs.of_eq hk.memory hk.regs, ?_, ?_⟩
  · rintro _ ⟨⟩
    exact Image.placed_toImage p
  · rintro _ ⟨⟩
    refine Image.loadInto_congr (h.loadInto hsize) ?_
    show _ = k.memory.clear.size
    rw [hkm, Memory.size_clear, Memory.size_clear, hplaced]

theorem refines_load (h : Makes lines p) (hsize : p.size ≤ e.machine.memory.size) :
    Refines p (e.load p.toImage).1.machine (Source.start lines e.machine.input) := by
  obtain ⟨k, hload, hk⟩ := load_of_makes h hsize
  rw [hload]
  refine Refines.of_alike ?_ hk
  refine ⟨fun v hv => ?_, rfl, rfl, rfl, rfl, rfl, rfl⟩
  obtain ⟨i, hi, rfl⟩ := List.mem_iff_getElem.1 hv
  have hinit := (h.tables.symbols.initials _ hv).1
  have ha : p.symbols[i].address = i := h.tables.symbols.addresses i hi
  show (p.placed e.machine.memory).read? _ = some (.num ((Source.initial? lines _).getD 0))
  rw [ha, Program.read?_placed_symbol hsize h.tables.symbolsByAddress hi, hinit]
  rfl

theorem confined_load (h : Makes lines p) (hsize : p.size ≤ e.machine.memory.size) :
    Confined (p.placed e.machine.memory) p.origin (e.load p.toImage).1.machine := by
  obtain ⟨k, hload, hk⟩ := load_of_makes h hsize
  rw [hload]
  refine Confined.of_alike ?_ hk
  exact ⟨Int.le_refl _, fun a _ => rfl⟩

/-- A step of an emulator is a step of the source that it has been loaded with. -/
theorem refines_step {s : Source.State} {M : Memory} (h : Refines p e.machine s)
    (hp : Makes lines p) (hs : p.Symbolic) (hsound : e.machine.Sound M.size)
    (hsize : p.size ≤ M.size) (hc : Confined (p.placed M) p.origin e.machine)
    (hi : s.index < (Source.code lines).length) :
    Refines p e.step.1.machine (Source.step lines s).state ∧
      e.step.2.failure? =
        (Source.step lines s).failure.map (Source.Failure.error lines s.index) := by
  by_cases hrun : s.state = .running
  · have hm : e.machine.isRunning = true := by rw [h.isRunning, hrun]; rfl
    have hpast : e.machine.isPastEnd = false := by
      have hlen := hp.length
      unfold Program.size at hsize
      unfold Machine.isPastEnd
      rw [hsound.size_eq, h.pc]
      exact decide_eq_false (by omega)
    obtain ⟨hf, hn⟩ := h.cycle hp hs hsound hsize hc hrun hi
    obtain ⟨ha, ho⟩ := step_of_running hm hpast
    exact ⟨hn.of_alike ha, ho.trans hf⟩
  · have hm : e.machine.isRunning = false := by rw [h.isRunning, decide_eq_false hrun]
    have hstep : Source.step lines s = ⟨s, none⟩ := by
      unfold Source.step
      cases hst : s.state with
      | running => exact absurd hst hrun
      | _ => rfl
    rw [step_of_not_running hm, hstep]
    exact ⟨h, rfl⟩

/-! ## Runs -/

theorem sound_drive {size : Nat} (h : e.Sound size) {cs : List Call}
    (hd : ∀ c ∈ cs, c.drives = true) : (e.performAll cs).Sound size := by
  refine performAll_keeps h fun e' c hc h => h.perform fun i hi => ?_
  have hd := hd c hc
  rw [hi] at hd
  cases hd

theorem drives_steps (k : Nat) : ∀ c ∈ List.replicate k Call.step, c.drives = true := by
  intro c hc
  rw [List.eq_of_mem_replicate hc]
  rfl

theorem performAll_steps (e : Emulator) (k : Nat) :
    e.performAll (List.replicate (k + 1) .step) =
      (e.performAll (List.replicate k .step)).step.1 := by
  rw [List.replicate_succ', performAll_append]
  rfl

theorem refines_steps {s : Source.State} {M : Memory} (h : Refines p e.machine s)
    (hp : Makes lines p) (hs : p.Symbolic) (hsound : e.Sound M.size) (hsize : p.size ≤ M.size)
    (hc : Confined (p.placed M) p.origin e.machine) {k : Nat}
    (hi : ∀ j < k, (Source.run lines s j).index < (Source.code lines).length) :
    Refines p (e.performAll (List.replicate k .step)).machine (Source.run lines s k) := by
  induction k with
  | zero => exact h
  | succ k ih =>
    have hk := ih fun j hj => hi j (Nat.lt_succ_of_lt hj)
    have hd := drives_steps k
    rw [performAll_steps]
    exact (refines_step hk hp hs (sound_drive hsound hd).machine hsize
      (confined_performAll hc (parted_placed hp hs hsize) hd) (hi k (Nat.lt_succ_self k))).1

/-- A program that has been assembled without warnings does what its source says, as long as the
    source has an instruction to go on with, and its code never changes. After `k` steps the
    machine is where the source is, and the next step fails as the source does; so is it after
    any steps and runs that attempt `k` cycles together. -/
theorem assembled_refines (a : Assembler) (filename source : String) (p : Program)
    (hp : (a.assemble filename source).2.outcome = .ok p) (hw : p.warnings = [])
    (hs : p.Symbolic) (e : Emulator) (hsize : p.size ≤ e.machine.memory.size) :
    let lines := accepted (Source.readLines filename source)
    let start := (e.load p.toImage).1
    let s := Source.run lines (Source.start lines e.machine.input)
    (e.load p.toImage).2 = none ∧ p.symbols.map Symbol.name = Source.declared lines ∧
      (∀ cs, (∀ c ∈ cs, c.drives = true) → ∀ b : Int, p.origin ≤ b →
        (start.performAll cs).machine.memory.read? b = start.machine.memory.read? b) ∧
      ∀ k, (∀ j < k, (s j).index < (Source.code lines).length) →
        Refines p (start.performAll (List.replicate k .step)).machine (s k) ∧
        ((s k).index < (Source.code lines).length →
          (start.performAll (List.replicate k .step)).step.2.failure? =
            (Source.step lines (s k)).failure.map (Source.Failure.error lines (s k).index)) ∧
        ∀ cs, (∀ c ∈ cs, c.drives = true) → (tried (start.history cs)).length = k →
          Refines p (start.performAll cs).machine (s k) := by
  intro lines start s
  have hm : Makes lines p := makes_of_assemble hp hw
  have hparted := parted_placed hm hs hsize
  have hsound : start.Sound e.machine.memory.size := sound_load hm hsize
  have hconfined := confined_load hm hsize
  have hstart : Refines p start.machine (s 0) := refines_load hm hsize
  refine ⟨?_, hm.tables.symbols.names, fun cs hd b hb => ?_, fun k hj => ⟨?_, fun hi => ?_, ?_⟩⟩
  · obtain ⟨k, hload, -⟩ := load_of_makes hm hsize
    rw [hload]
  · have hc := confined_performAll hconfined hparted hd
    exact (hc.cells b hb).trans (hconfined.cells b hb).symm
  · exact refines_steps hstart hm hs hsound hsize hconfined hj
  · have hk := refines_steps hstart hm hs hsound hsize hconfined hj
    have hd := drives_steps k
    exact (refines_step hk hm hs (sound_drive hsound hd).machine hsize
      (confined_performAll hconfined hparted hd) hi).2
  · rintro cs hd rfl
    have hi := hstart.iterate hm hs hsound.machine hsize hconfined
      (fun i => running_of_tried start hd) hj
    exact hi.of_alike (schedule start hd).1

/-- Reads a number, and counts down from it to one. -/
def countdown : String :=
  "n\nREAD n\nloop:\nWRITE n\nLOAD n\nSUBTI 1\nSTORE n\nJUMPZ done\nJUMP loop\ndone:\nHALT"

def countdownAssembly : Assembly := ((Assembler.new true).assemble "countdown" countdown).2

def countdownProgram : Program := countdownAssembly.outcome.toOption.getD ⟨[], [], [], [], ""⟩

/-- A program with a variable and two labels that runs until it halts. -/
theorem assembled_refines_countdown :
    let e := Emulator.new (.zeros 12 (by decide)) ["2"] none
    let after := (e.load countdownProgram.toImage).1.performAll (List.replicate 14 .step)
    let lines := accepted (Source.readLines "countdown" countdown)
    let s := Source.run lines (Source.start lines ["2"]) 14
    Refines countdownProgram after.machine s ∧ s.state = .halted ∧ s.output = #["2", "1"] := by
  intro e after lines s
  obtain ⟨hok, hw, hcell, hjump, hsize, hindex, hstate, hout⟩ :
      countdownAssembly.outcome.toBool = true ∧ countdownProgram.warnings = [] ∧
        (∀ i ∈ countdownProgram.instructions,
          i.opcode.addressesCell = true → i.resolution = some .variable) ∧
        (∀ i ∈ countdownProgram.instructions,
          i.opcode.isJump = true → i.resolution = some .label) ∧
        countdownProgram.size ≤ e.machine.memory.size ∧
        (∀ j < 14, (Source.run lines (Source.start lines ["2"]) j).index <
          (Source.code lines).length) ∧
        s.state = .halted ∧ s.output = #["2", "1"] := by
    decide +kernel
  have hp : countdownAssembly.outcome = .ok countdownProgram := by
    unfold countdownProgram
    cases ho : countdownAssembly.outcome with
    | error err => rw [ho] at hok; cases hok
    | ok p => rfl
  obtain ⟨-, -, -, hk⟩ := assembled_refines (Assembler.new true) "countdown" countdown
    countdownProgram hp hw ⟨hcell, hjump⟩ e hsize
  exact ⟨(hk 14 hindex).1, hstate, hout⟩

end Emulator

end DecimalMachine
