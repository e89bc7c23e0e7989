import DecimalMachine.Proofs.Cycle
/-
  Effects: what one instruction does to each part of a machine. An instruction that is completed
  changes nothing but what its operation is for (`completed_cycle_frame`). One that fails for good
  changes nothing but the state, the registers of the instruction at work and the input that it has
  taken a token from (`failed_cycle_atomic`). Both are read off the ways in which an instruction can
  go (`Carried`), one part of the machine at a time; only what draws a warning is not told there,
  and is taken from division itself.
-/
namespace DecimalMachine

/-- The operation leaves a value in the accumulator. -/
def Opcode.setsAccumulator (op : Opcode) : Bool := op = .load || op = .loadImm || op.isArithmetic

namespace Machine

variable {m : Machine} {op : Opcode} {n : Int} {r : Attempt}

/-! ## The accumulator -/

theorem Gives.setsAccumulator {v : Int} (h : Gives m op n v) : op.setsAccumulator = true := by
  cases h with
  | operand hop => rw [hop]; rfl
  | cell hop => rw [hop]; rfl
  | checked hop =>
    unfold Opcode.setsAccumulator
    rw [hop, Bool.or_true]
  | remainder hop => rcases hop with rfl | rfl <;> rfl

theorem Carried.accumulator (h : Carried m op n r) (ho : op.setsAccumulator = false) :
    r.machine.regs.accumulator = m.regs.accumulator := by
  cases h with
  | refused => rw [fail_regs]
  | refusedToken _ hk => rw [fail_regs, taken_regs hk]
  | @tookToken k _ _ _ hk =>
    have hregs : k.regs = m.regs := taken_regs hk
    exact congrArg Registers.accumulator hregs
  | accumulated hv => rw [hv.setsAccumulator] at ho; cases ho
  | dividedByZero hop => rcases hop with rfl | rfl <;> cases ho
  | _ => rfl

/-! ## Input -/

/-- Nothing but reading takes a token. -/
theorem Carried.input_of_ne (h : Carried m op n r) (hr : op ≠ .read) :
    r.machine.input = m.input := by
  cases h with
  | refused => exact fail_input _ _
  | refusedToken hop => exact absurd hop hr
  | tookToken hop => exact absurd hop hr
  | _ => rfl

/-- Reading has taken a token before it fails, and a token that there was if it does not. -/
theorem Carried.input_of_read (h : Carried m .read n r) :
    r.machine.input = m.input.tail ∧ (r.failure = none → m.input ≠ []) := by
  cases h with
  | refused hop => exact absurd rfl hop
  | refusedToken _ hk =>
    rw [fail_input, fail_failure, taken_input hk]
    exact ⟨rfl, nofun⟩
  | @tookToken k t _ _ hk ht =>
    have hinput : k.input = m.input.tail := taken_input hk
    refine ⟨hinput, fun _ hnil => ?_⟩
    rw [hnil] at ht
    cases ht
  | accumulated hv => cases hv.setsAccumulator
  | dividedByZero hop => exact absurd hop (by simp)
  | jumped hop => exact absurd hop (by simp)
  | passed hop => exact absurd hop (by simp)
  | stored hop => cases hop
  | wrote hop => cases hop
  | halted hop => cases hop

/-! ## Output and warnings -/

/-- Only writing adds to the output, and what it adds is the line of its cell. -/
theorem Carried.output_of_ne (h : Carried m op n r) (hw : op ≠ .write) :
    r.machine.output = m.output := by
  cases h with
  | refused => exact fail_output _ _
  | refusedToken _ hk => rw [fail_output, taken_output hk]
  | @tookToken k _ _ _ hk =>
    have houtput : k.output = m.output := taken_output hk
    exact houtput
  | wrote hop => exact absurd hop hw
  | _ => rfl

theorem Carried.output_of_write (h : Carried m .write n r) (hf : r.failure = none) :
    ∃ c, m.memory.read? n = some c ∧ r.machine.output = m.output.push (lineOf c) := by
  cases h with
  | refused => rw [fail_failure] at hf; cases hf
  | refusedToken hop => cases hop
  | tookToken hop => cases hop
  | wrote _ hc => exact ⟨_, hc, rfl⟩
  | accumulated hv => cases hv.setsAccumulator
  | dividedByZero hop => exact absurd hop (by simp)
  | jumped hop => exact absurd hop (by simp)
  | passed hop => exact absurd hop (by simp)
  | stored hop => cases hop
  | halted hop => cases hop

/-- Only division can draw a warning. -/
theorem Carried.warnings (h : Carried m op n r) (hd : op ≠ .divide) (hi : op ≠ .divideImm) :
    r.machine.warnings = m.warnings := by
  cases h with
  | refused => exact fail_warnings _ _
  | refusedToken _ hk => rw [fail_warnings, taken_warnings hk]
  | @tookToken k _ _ _ hk =>
    have hwarnings : k.warnings = m.warnings := taken_warnings hk
    exact hwarnings
  | dividedByZero hop => exact absurd hop (not_or.2 ⟨hd, hi⟩)
  | _ => rfl

/-- Division draws a warning if it is by zero. -/
theorem warnings_divideBy (m : Machine) (op : Opcode) (v : Int) :
    (m.divideBy op v).machine.warnings =
      if v = 0 then m.warnings.push zeroDivisorMessage else m.warnings := by
  unfold divideBy
  split
  · rfl
  · unfold setChecked faultIn
    split
    · rfl
    · split <;> exact fail_warnings _ _

/-- The instruction draws a warning: there is no such operation, or it divides by zero. -/
def Warns (m : Machine) (op : Option Opcode) (n : Int) : Prop :=
  op = none ∨ op = some .divide ∧ m.memory.read? n = some (.num 0) ∨ op = some .divideImm ∧ n = 0

theorem warnings_execute (m : Machine) (op : Opcode) (n : Int) :
    (m.Warns op n → (m.execute op n).machine.warnings = m.warnings.push zeroDivisorMessage) ∧
      (¬ m.Warns op n → (m.execute op n).machine.warnings = m.warnings) := by
  have hcarried := carried_execute m op n
  have hcell : (m.execute .divide n).machine.warnings =
      if m.memory.read? n = some (.num 0) then m.warnings.push zeroDivisorMessage
      else m.warnings := by
    show (m.applyCell .divide n).machine.warnings = _
    unfold applyCell
    cases hc : m.memory.read? n with
    | none => exact fail_warnings _ _
    | some c =>
      cases c with
      | raw t => exact fail_warnings _ _
      | num v =>
        show (m.divideBy .divide v).machine.warnings = _
        rw [warnings_divideBy]
        simp
  cases op with
  | divide => simp [Warns, hcell]
  | divideImm => simp [Warns, execute, applyValue, warnings_divideBy]
  | _ => exact ⟨by simp [Warns], fun _ => hcarried.warnings (by decide) (by decide)⟩

/-! ## State and program counter -/

theorem Carried.state_of_ne (h : Carried m op n r) (hh : op ≠ .halt) (hf : r.failure = none) :
    r.machine.state = m.state := by
  cases h with
  | refused => rw [fail_failure] at hf; cases hf
  | refusedToken => rw [fail_failure] at hf; cases hf
  | @tookToken k _ _ _ hk =>
    have hstate : k.state = m.state := taken_state hk
    exact hstate
  | halted hop => exact absurd hop hh
  | _ => rfl

theorem Carried.pc_of_not_jump (h : Carried m op n r) (hj : op.isJump = false) :
    r.machine.regs.pc = m.regs.pc := by
  cases h with
  | refused => rw [fail_regs]
  | refusedToken _ hk => rw [fail_regs, taken_regs hk]
  | @tookToken k _ _ _ hk =>
    have hregs : k.regs = m.regs := taken_regs hk
    exact congrArg Registers.pc hregs
  | jumped hop => rcases hop with rfl | ⟨rfl, -⟩ | ⟨rfl, -⟩ <;> cases hj
  | _ => rfl

/-- The address that a completed instruction leads to. -/
def follow (m : Machine) (op : Option Opcode) (n : Int) : Int :=
  match op with
  | some .jump => n
  | some .jumpNegative => if m.regs.accumulator < 0 then n else m.regs.pc + 1
  | some .jumpZero => if m.regs.accumulator = 0 then n else m.regs.pc + 1
  | some .halt => m.regs.pc
  | _ => m.regs.pc + 1

/-- An operation leaves the program counter one before the address that it leads to, except that
    halting leads nowhere. -/
theorem pc_execute (m : Machine) (op : Opcode) (n : Int) :
    (m.execute op n).machine.regs.pc =
      if op = .halt then m.regs.pc else m.follow (some op) n - 1 := by
  have hcarried := carried_execute m op n
  cases op with
  | jump => rfl
  | jumpNegative | jumpZero =>
    simp only [execute, follow, reduceCtorEq, if_false]
    split
    · rfl
    · show m.regs.pc = _
      omega
  | halt => rfl
  | _ =>
    rw [hcarried.pc_of_not_jump rfl, if_neg (by decide)]
    show m.regs.pc = m.regs.pc + 1 - 1
    omega

/-- Moving on from a running machine adds one to the program counter. -/
theorem advance_pc (m : Machine) :
    m.advance.regs.pc = if m.state = .running then m.regs.pc + 1 else m.regs.pc := by
  rw [advance_regs]
  simp only [isRunning, decide_eq_true_eq]
  split <;> rfl

theorem advance_accumulator (m : Machine) :
    m.advance.regs.accumulator = m.regs.accumulator := by
  rw [advance_regs]
  split <;> rfl

/-! ## Completed instructions -/

/-- What an instruction with operation `op` and operand `n` leaves of the machine `m` when it is
    completed. Without an operation the word at the program counter has the code of none. -/
structure Completes (m : Machine) (op : Option Opcode) (n : Int) (k : Machine) : Prop where
  size : k.memory.size = m.memory.size
  cells : ∀ a, a ≠ n → k.memory.read? a = m.memory.read? a
  memory : op ≠ some .read → op ≠ some .store → k.memory = m.memory
  accumulator : (∀ o, op = some o → o.setsAccumulator = false) →
    k.regs.accumulator = m.regs.accumulator
  pc : k.regs.pc = m.follow op n
  writes : op = some .write →
    ∃ c, m.memory.read? n = some c ∧ k.output = m.output.push (lineOf c)
  output : op ≠ some .write → k.output = m.output
  warns : m.Warns op n → ∃ text, k.warnings = m.warnings.push text
  warnings : ¬ m.Warns op n → k.warnings = m.warnings
  reads : op = some .read → ∃ t, m.input = t :: k.input
  input : op ≠ some .read → k.input = m.input
  cycles : k.cycles = m.cycles + 1
  state : k.state = if op = some .halt then .halted else .running

theorem completes_unknown {text : String} (hrun : m.state = .running) :
    Completes m none n (m.warn text).advance where
  size := by rw [advance_memory]; rfl
  cells a _ := by rw [advance_memory]; rfl
  memory _ _ := by rw [advance_memory]; rfl
  accumulator _ := by rw [advance_accumulator]; rfl
  pc := by rw [advance_pc, show (m.warn text).state = .running from hrun]; rfl
  writes := nofun
  output _ := by rw [advance_output]; rfl
  warns _ := ⟨text, by rw [advance_warnings]; rfl⟩
  warnings h := absurd (.inl rfl) h
  reads := nofun
  input _ := by rw [advance_input]; rfl
  cycles := by rw [advance_cycles]; rfl
  state := by rw [advance_state]; exact hrun

theorem state_execute (hf : (m.execute op n).failure = none) :
    (m.execute op n).machine.state = if op = .halt then .halted else m.state := by
  by_cases hh : op = .halt
  · subst hh
    rfl
  · rw [if_neg hh]
    exact (carried_execute m op n).state_of_ne hh hf

theorem completes_execute (hrun : m.state = .running) (hf : (m.execute op n).failure = none) :
    Completes m (some op) n (m.execute op n).machine.advance where
  size := by rw [advance_memory, (carried_execute m op n).size]
  cells a ha := by rw [advance_memory, (carried_execute m op n).cells ha]
  memory hr hs := by
    rw [advance_memory]
    exact (carried_execute m op n).memory (fun h => hr (h ▸ rfl)) fun h => hs (h ▸ rfl)
  accumulator ho := by
    rw [advance_accumulator, (carried_execute m op n).accumulator (ho op rfl)]
  pc := by
    rw [advance_pc, state_execute hf, pc_execute, hrun]
    by_cases hh : op = .halt
    · subst hh
      rfl
    · rw [if_neg hh, if_neg hh, if_pos rfl]
      omega
  writes hw := by
    obtain rfl := Option.some.inj hw
    rw [advance_output]
    exact (carried_execute m .write n).output_of_write hf
  output hw := by
    rw [advance_output]
    exact (carried_execute m op n).output_of_ne fun h => hw (h ▸ rfl)
  warns hw := ⟨_, by rw [advance_warnings]; exact (warnings_execute m op n).1 hw⟩
  warnings hw := by rw [advance_warnings]; exact (warnings_execute m op n).2 hw
  reads hr := by
    obtain rfl := Option.some.inj hr
    obtain ⟨hi, hne⟩ := (carried_execute m .read n).input_of_read
    rw [advance_input, hi]
    exact ⟨_, (List.cons_head_tail (hne hf)).symm⟩
  input hr := by
    rw [advance_input]
    exact (carried_execute m op n).input_of_ne fun h => hr (h ▸ rfl)
  cycles := by
    rw [advance_cycles, (carried_execute m op n).cycles]
  state := by
    rw [advance_state, state_execute hf, hrun]
    simp only [Option.some.injEq]

/-- A completed cycle has carried out its word and moved on. -/
theorem cycle_of_completed {w : Int} (hw : m.memory.read? m.regs.pc = some (.num w))
    (hf : m.cycle.failure = none) :
    (m.fetch w).dispatch.failure = none ∧
      m.cycle.machine = (m.fetch w).dispatch.machine.advance := by
  rw [cycle_of_num hw] at hf ⊢
  cases hd : (m.fetch w).dispatch.failure with
  | none => exact ⟨rfl, rfl⟩
  | some e =>
    rw [hd, if_neg (by exact Bool.false_ne_true), hd] at hf
    cases hf

/-- An instruction that is completed changes nothing but what its operation is for. -/
theorem completed_cycle_frame {w : Int} (hrun : m.state = .running)
    (hw : m.memory.read? m.regs.pc = some (.num w)) (hf : m.cycle.failure = none) :
    Completes m (Opcode.ofCode? (Word.split w).1) (Word.split w).2 m.cycle.machine := by
  obtain ⟨hdone, hcycle⟩ := cycle_of_completed hw hf
  have hcode : (m.fetch w).regs.opcode = (Word.split w).1 := rfl
  have hoperand : (m.fetch w).regs.operand = (Word.split w).2 := rfl
  rw [hcycle]
  unfold dispatch at hdone ⊢
  rw [hcode, hoperand] at hdone ⊢
  -- Fetching touches no part that an effect is told of, so the fields below are the same for `m`.
  cases hop : Opcode.ofCode? (Word.split w).1 with
  | some op =>
    rw [hop] at hdone
    exact { completes_execute (m := m.fetch w) hrun hdone with }
  | none =>
    rw [hop] at hdone
    dsimp only at hdone ⊢
    cases hn : Text.writeNumeral (Word.split w).1 with
    | error e =>
      rw [hn] at hdone
      cases (fail_failure _ _).symm.trans hdone
    | ok text => exact { completes_unknown (m := m.fetch w) hrun with }

/-- A store into its own cell: the cell changes, and the next instruction is the one behind it. -/
theorem completed_cycle_frame_overwritten :
    let m := (new ⟨#[.num 2100, .num 4300], by decide⟩ ["7"]).setAccumulator (-5)
    m.state = .running ∧ m.memory.read? m.regs.pc = some (.num 2100) ∧ m.cycle.failure = none ∧
      m.cycle.machine.regs.pc = 1 ∧ m.cycle.machine.memory.read? 1 = m.memory.read? 1 ∧
      m.cycle.machine.input = ["7"] := by
  intro m
  have hw : m.memory.read? m.regs.pc = some (.num 2100) := by decide
  have hf : m.cycle.failure = none := by decide +kernel
  have h := completed_cycle_frame rfl hw hf
  exact ⟨rfl, hw, hf, h.pc, h.cells 1 (by decide), h.input (by decide)⟩

/-! ## Failed instructions -/

/-- What a failure leaves as it was. -/
structure Untouched (m k : Machine) : Prop where
  memory : k.memory = m.memory
  accumulator : k.regs.accumulator = m.regs.accumulator
  pc : k.regs.pc = m.regs.pc
  cycles : k.cycles = m.cycles
  output : k.output = m.output
  warnings : k.warnings = m.warnings
  written : k.written = m.written

theorem untouched_fail (m : Machine) (e : MachineError) : Untouched m (m.fail e).machine where
  memory := fail_memory m e
  accumulator := by rw [fail_regs]
  pc := by rw [fail_regs]
  cycles := fail_cycles m e
  output := fail_output m e
  warnings := fail_warnings m e
  written := fail_written m e

theorem untouched_fetch (m : Machine) (w : Int) : Untouched m (m.fetch w) :=
  ⟨rfl, rfl, rfl, rfl, rfl, rfl, rfl⟩

theorem Taken.untouched {k : Machine} (h : Taken m k) : Untouched m k where
  memory := taken_memory h
  accumulator := by rw [taken_regs h]
  pc := by rw [taken_regs h]
  cycles := taken_cycles h
  output := taken_output h
  warnings := taken_warnings h
  written := taken_written h

theorem Untouched.trans {k l : Machine} (h : Untouched m k) (h' : Untouched k l) :
    Untouched m l where
  memory := h'.memory.trans h.memory
  accumulator := h'.accumulator.trans h.accumulator
  pc := h'.pc.trans h.pc
  cycles := h'.cycles.trans h.cycles
  output := h'.output.trans h.output
  warnings := h'.warnings.trans h.warnings
  written := h'.written.trans h.written

/-- The error is no fault, or a fault of the instruction at the program counter. -/
def Placed (m : Machine) (e : MachineError) : Prop := ∀ r, e = .fault r → r.pc = some m.regs.pc

theorem Refusal.placed {e : MachineError} (h : Refusal m op n e) : Placed m e := by
  intro r he
  cases h with
  | fault f =>
    obtain rfl := MachineError.fault.inj he
    rfl
  | outside => exact absurd he (Memory.outside_ne_fault _ _ r)
  | tooLong => cases he

/-- The machine of a failed instruction is that of a failure: of the machine as it was, or of one
    that has taken a token to read. -/
theorem Dispatched.of_failure {e : MachineError} (h : Dispatched m r) (hf : r.failure = some e) :
    Placed m e ∧ ∃ k, r = k.fail e ∧
      if Opcode.ofCode? m.regs.opcode = some .read then Taken m k else k = m := by
  cases h with
  | unknown => cases hf
  | unwritten d hop =>
    rw [fail_failure] at hf
    obtain rfl := Option.some.inj hf
    refine ⟨nofun, m, rfl, ?_⟩
    rw [hop]
    rfl
  | known hop hc =>
    rw [hop]
    cases hc with
    | refused hne he =>
      rw [fail_failure] at hf
      obtain rfl := Option.some.inj hf
      refine ⟨he.placed, m, rfl, ?_⟩
      rw [if_neg fun h => hne (Option.some.inj h)]
    | refusedToken hread hk he =>
      rw [fail_failure] at hf
      obtain rfl := Option.some.inj hf
      refine ⟨he.placed, _, rfl, ?_⟩
      rw [if_pos (congrArg some hread)]
      exact hk
    | _ => cases hf

/-- The operation of the word at the program counter. -/
def operation? (m : Machine) : Option Opcode :=
  match m.memory.read? m.regs.pc with
  | some (.num w) => Opcode.ofCode? (Word.split w).1
  | _ => none

theorem operation?_of_num {w : Int} (hw : m.memory.read? m.regs.pc = some (.num w)) :
    m.operation? = Opcode.ofCode? (Word.split w).1 := by
  unfold operation?
  rw [hw]

theorem operation?_of_not_num (h : ∀ w, m.memory.read? m.regs.pc ≠ some (.num w)) :
    m.operation? = none := by
  unfold operation?
  split
  · exact absurd ‹_› (h _)
  · rfl

/-- A machine whose next instruction fails, right before it does: the word is fetched if it is one,
    and a token is taken if it is to be read. -/
structure Fetched (m k : Machine) : Prop where
  untouched : Untouched m k
  input : k.input = if m.operation? = some .read then m.input.tail else m.input
  word : ∀ w, m.memory.read? m.regs.pc = some (.num w) → k.regs = (m.fetch w).regs
  none : (∀ w, m.memory.read? m.regs.pc ≠ some (.num w)) → k.regs = m.regs

theorem fetched_self (h : ∀ w, m.memory.read? m.regs.pc ≠ some (.num w)) : Fetched m m where
  untouched := ⟨rfl, rfl, rfl, rfl, rfl, rfl, rfl⟩
  input := by rw [operation?_of_not_num h]; rfl
  word w hw := absurd hw (h w)
  none _ := rfl

/-- A cycle that fails is the failure of such a machine, and a fault names the instruction. -/
theorem cycle_of_failure {e : MachineError} (hf : m.cycle.failure = some e) :
    Placed m e ∧ ∃ k, Fetched m k ∧ m.cycle = k.fail e := by
  cases hc : m.memory.read? m.regs.pc with
  | none =>
    rw [cycle_of_none hc] at hf ⊢
    obtain rfl := Option.some.inj ((fail_failure _ _).symm.trans hf)
    have hplaced : Placed m (m.memory.outside m.regs.pc) := fun r he =>
      absurd he (Memory.outside_ne_fault _ _ r)
    exact ⟨hplaced, m, fetched_self (by rw [hc]; nofun), rfl⟩
  | some c =>
    cases c with
    | raw t =>
      rw [cycle_of_raw hc] at hf ⊢
      obtain rfl := Option.some.inj ((fail_failure _ _).symm.trans hf)
      refine ⟨?_, m, fetched_self (by rw [hc]; nofun), rfl⟩
      rintro _ ⟨⟩
      rfl
    | num w =>
      rw [cycle_of_num hc] at hf ⊢
      have hd : (m.fetch w).dispatch.failure ≠ none := by
        intro hn
        rw [hn] at hf
        cases hf
      rw [if_neg fun h => hd (Option.isNone_iff_eq_none.1 h)] at hf ⊢
      obtain ⟨hp, k, hk, htoken⟩ := (dispatched (m.fetch w)).of_failure hf
      refine ⟨hp, k, ?_, hk⟩
      have hword : ∀ v, m.memory.read? m.regs.pc = some (.num v) → v = w := by
        intro v hv
        rw [hc] at hv
        cases hv
        rfl
      have hop : m.operation? = Opcode.ofCode? (m.fetch w).regs.opcode := operation?_of_num hc
      rw [← hop] at htoken
      split at htoken
      · rename_i hread
        refine ⟨(untouched_fetch m w).trans htoken.untouched, ?_, ?_, fun h => absurd hc (h w)⟩
        · have hinput : k.input = (m.fetch w).input.tail := taken_input htoken
          rw [if_pos hread]
          exact hinput
        · rintro v hv
          rw [hword v hv]
          exact taken_regs htoken
      · rename_i hread
        subst htoken
        refine ⟨untouched_fetch m w, ?_, ?_, fun h => absurd hc (h w)⟩
        · rw [if_neg hread]
          rfl
        · rintro v hv
          rw [hword v hv]

/-- A list that has lost its head under a condition, if it had one. -/
theorem lost_head {α : Type} {p : Prop} [Decidable p] {I J : List α}
    (h : J = if p then I.tail else I) :
    ((∃ t, I = t :: J) ↔ p ∧ I ≠ []) ∧ (¬ (p ∧ I ≠ []) → J = I) := by
  cases I with
  | nil => simp_all
  | cons t I => by_cases hp : p <;> simp_all

/-- An instruction that fails for good is atomic: it leaves memory, accumulator, program counter,
    cycles, output and warnings as they were, and the machine faulted. The registers of the
    instruction at work hold the word if it is one. A token is lost if one was to be read, and there
    was one. -/
theorem failed_cycle_atomic {e : MachineError} (hf : m.cycle.failure = some e)
    (he : e.isFatal = true) :
    let k := m.cycle.machine
    Untouched m k ∧ k.state = .faulted ∧
      (∀ w, m.memory.read? m.regs.pc = some (.num w) →
        k.regs.instruction = w ∧ (k.regs.opcode, k.regs.operand) = Word.split w) ∧
      ((∀ w, m.memory.read? m.regs.pc ≠ some (.num w)) → k.regs = m.regs) ∧
      ((∃ t, m.input = t :: k.input) ↔ m.operation? = some .read ∧ m.input ≠ []) ∧
      (¬ (m.operation? = some .read ∧ m.input ≠ []) → k.input = m.input) ∧
      ∀ r, e = .fault r → r.pc = some m.regs.pc := by
  intro k
  obtain ⟨hp, b, hb, hcycle⟩ := cycle_of_failure hf
  have hk : k = (b.fail e).machine := congrArg Attempt.machine hcycle
  have hregs : k.regs = b.regs := by rw [hk, fail_regs]
  obtain ⟨hlost, hkept⟩ := lost_head hb.input
  rw [hregs, hk, fail_input]
  refine ⟨hb.untouched.trans (untouched_fail b e), fail_state b he, fun w hw => ?_, hb.none, hlost,
    hkept, hp⟩
  rw [hb.word w hw]
  exact ⟨rfl, rfl⟩

/-- A token that is read into a cell that is not there: it is lost, and nothing else is. -/
theorem failed_cycle_atomic_outside :
    let m := (new ⟨#[.num 1009, .num 5], by decide⟩ ["x", "y"]).setAccumulator 3
    m.cycle.failure = some (.address 9 2) ∧ MachineError.isFatal (.address 9 2) = true ∧
      Untouched m m.cycle.machine ∧ m.cycle.machine.state = .faulted ∧
      m.cycle.machine.regs.instruction = 1009 ∧ ∃ t, m.input = t :: m.cycle.machine.input := by
  intro m
  have hf : m.cycle.failure = some (.address 9 2) := by decide +kernel
  obtain ⟨hu, hs, hw, -, hi, -⟩ := failed_cycle_atomic hf rfl
  exact ⟨hf, rfl, hu, hs, (hw 1009 (by decide)).1, hi.2 ⟨by decide, nofun⟩⟩

/-! ## Tokens -/

/-- An instruction that reads takes a token even if it fails, and no other instruction takes one. -/
theorem input_cycle (m : Machine) :
    m.cycle.machine.input = if m.operation? = some .read then m.input.tail else m.input := by
  cases hf : m.cycle.failure with
  | some e =>
    obtain ⟨-, k, hk, hcycle⟩ := cycle_of_failure hf
    rw [hcycle, fail_input]
    exact hk.input
  | none =>
    cases hc : m.memory.read? m.regs.pc with
    | none =>
      rw [cycle_of_none hc, failOutside, fail_failure] at hf
      cases hf
    | some c =>
      cases c with
      | raw t =>
        rw [cycle_of_raw hc, fail_failure] at hf
        cases hf
      | num w =>
        obtain ⟨hdone, hcycle⟩ := cycle_of_completed hc hf
        have hop : m.operation? = Opcode.ofCode? (m.fetch w).regs.opcode := operation?_of_num hc
        rw [hcycle, advance_input, hop]
        have hd := dispatched (m.fetch w)
        revert hd hdone
        generalize (m.fetch w).dispatch = r
        intro hdone hd
        cases hd with
        | unknown text h =>
          rw [h]
          rfl
        | unwritten =>
          rw [fail_failure] at hdone
          cases hdone
        | @known op _ h hcarried =>
          rw [h]
          by_cases hr : op = .read
          · subst hr
            rw [if_pos rfl]
            exact hcarried.input_of_read.1
          · rw [if_neg fun h => hr (Option.some.inj h)]
            exact hcarried.input_of_ne hr

end Machine

end DecimalMachine
