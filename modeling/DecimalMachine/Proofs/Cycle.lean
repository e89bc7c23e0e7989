import DecimalMachine.Machine
import DecimalMachine.Proofs.Memory
/-
  The cycle: everything that carrying out one instruction can amount to. `Carried m op n r` lists
  the ways in which `op` with operand `n` can turn the machine `m` into the attempt `r`; whatever
  every cycle keeps is read off that list (`cycle_keeps`). A failure leaves registers and memory
  as they were, and takes at most a token of the input.
-/
namespace DecimalMachine.Machine

variable {m : Machine} {op : Opcode} {n : Int}

/-! ## The lines of a journal -/

theorem written_congr {m m' : Machine} (h : m.journal = m'.journal) : m.written = m'.written := by
  unfold written
  rw [h]

theorem written_note (m : Machine) (t : Note) : (m.note t).written = m.written := by
  simp [written, note]

theorem written_warn (m : Machine) (text : String) : (m.warn text).written = m.written :=
  (written_congr rfl).trans (written_note m (.warning text))

theorem written_wrote (m : Machine) (output : Array String) (line : String) :
    ({ m with output, journal := m.journal.push (.wrote line) } : Machine).written =
      m.written ++ [line] := by
  simp [written]

theorem written_takeToken (m : Machine) : m.takeToken.written = m.written := by
  simp [written, takeToken]

/-! ## Failures -/

theorem fail_failure (m : Machine) (e : MachineError) : (m.fail e).failure = some e := by
  unfold fail
  split <;> rfl

theorem fail_memory (m : Machine) (e : MachineError) : (m.fail e).machine.memory = m.memory := by
  unfold fail
  split <;> rfl

theorem fail_regs (m : Machine) (e : MachineError) : (m.fail e).machine.regs = m.regs := by
  unfold fail
  split <;> rfl

/-- A failure for good leaves the machine faulted. -/
theorem fail_state (m : Machine) {e : MachineError} (he : e.isFatal = true) :
    (m.fail e).machine.state = .faulted := by
  unfold fail
  rw [if_pos he]

theorem fail_output (m : Machine) (e : MachineError) : (m.fail e).machine.output = m.output := by
  unfold fail
  split <;> rfl

theorem fail_cycles (m : Machine) (e : MachineError) : (m.fail e).machine.cycles = m.cycles := by
  unfold fail
  split <;> rfl

theorem fail_input (m : Machine) (e : MachineError) : (m.fail e).machine.input = m.input := by
  unfold fail
  split <;> rfl

theorem fail_warnings (m : Machine) (e : MachineError) :
    (m.fail e).machine.warnings = m.warnings := by
  unfold fail
  split <;> rfl

theorem fail_resume (m : Machine) (e : MachineError) : (m.fail e).machine.resume = m.resume := by
  unfold fail
  split <;> rfl

theorem fail_written (m : Machine) (e : MachineError) :
    (m.fail e).machine.written = m.written := by
  unfold fail
  split
  · exact (written_congr rfl).trans (written_note m _)
  · rfl

/-! ## What an instruction can amount to -/

/-- The errors of an operation that cannot be carried out. -/
inductive Refusal (m : Machine) (op : Opcode) (n : Int) : MachineError → Prop
  | fault (f : Fault) : Refusal m op n (.fault ⟨f, some m.regs.pc, some op.code⟩)
  | outside (hop : op.addressesCell = true) (hn : m.memory.holds n = false) :
      Refusal m op n (m.memory.outside n)
  | tooLong (d : DigitLimit) : Refusal m op n (.number d)

/-- The values that an operation can leave in the accumulator. -/
inductive Gives (m : Machine) (op : Opcode) (n : Int) : Int → Prop
  | operand (hop : op = .loadImm) : Gives m op n n
  | cell {v : Int} (hop : op = .load) (hv : m.memory.read? n = some (.num v)) : Gives m op n v
  | checked {v : Int} (hop : op.isArithmetic = true) (hv : Word.inRange v = true) : Gives m op n v
  | remainder (hop : op = .modulo ∨ op = .moduloImm) (d : Int) :
      Gives m op n (m.regs.accumulator.tmod d)

/-- A machine that has taken a token, perhaps with a note about it. -/
inductive Taken (m : Machine) : Machine → Prop
  | plain : Taken m m.takeToken
  | noted (text : String) : Taken m (m.takeToken.debug text)

/-- The ways to carry out `op` with operand `n`. -/
inductive Carried (m : Machine) (op : Opcode) (n : Int) : Attempt → Prop
  | refused {e : MachineError} (hop : op ≠ .read) (he : Refusal m op n e) :
      Carried m op n (m.fail e)
  | refusedToken {k : Machine} {e : MachineError} (hop : op = .read) (hk : Taken m k)
      (he : Refusal m op n e) : Carried m op n (k.fail e)
  | accumulated {v : Int} (hv : Gives m op n v) : Carried m op n (m.setAccumulator v).done
  | dividedByZero (hop : op = .divide ∨ op = .divideImm) :
      Carried m op n ((m.warn zeroDivisorMessage).setAccumulator 0).done
  | stored (hop : op = .store) (hn : m.memory.holds n = true) :
      Carried m op n
        ({ m with memory := m.memory.set n (.num m.regs.accumulator) }).done
  | tookToken {k : Machine} {t : String} {c : Cell} (hop : op = .read) (hk : Taken m k)
      (ht : m.input.head? = some t) (hc : Cell.ofText t = .ok c)
      (hv : ∀ v, c = .num v → Word.inRange v = true) (hn : m.memory.holds n = true) :
      Carried m op n ({ k with memory := m.memory.set n c }).done
  | wrote {c : Cell} (hop : op = .write) (hc : m.memory.read? n = some c) :
      Carried m op n ({ m with
        output := m.output.push (lineOf c), journal := m.journal.push (.wrote (lineOf c)) }).done
  | jumped (hop : op = .jump ∨ op = .jumpNegative ∧ m.regs.accumulator < 0 ∨
      op = .jumpZero ∧ m.regs.accumulator = 0) : Carried m op n (m.jumpTo n).done
  | passed (hop : op = .jumpNegative ∧ ¬ m.regs.accumulator < 0 ∨
      op = .jumpZero ∧ ¬ m.regs.accumulator = 0) : Carried m op n m.done
  | halted (hop : op = .halt) : Carried m op n m.halt.done

theorem carried_failOutside (hop : op.addressesCell = true) (hr : op ≠ .read)
    (hn : m.memory.read? n = none) : Carried m op n (m.failOutside n) :=
  .refused hr (.outside hop (Memory.read?_eq_none_iff.1 hn))

theorem carried_setChecked (hop : op.isArithmetic = true) (v : Int) :
    Carried m op n (m.setChecked op v) := by
  have hr : op ≠ .read := by rintro rfl; cases hop
  unfold setChecked
  split
  · exact .accumulated (.checked hop (by assumption))
  · split
    · exact .refused hr (.fault _)
    · exact .refused hr (.tooLong _)

theorem carried_divideBy (hop : op = .divide ∨ op = .divideImm) (v : Int) :
    Carried m op n (m.divideBy op v) := by
  unfold divideBy
  split
  · exact .dividedByZero hop
  · exact carried_setChecked (by rcases hop with rfl | rfl <;> rfl) _

theorem carried_remainderBy (hop : op = .modulo ∨ op = .moduloImm) (v : Int) :
    Carried m op n (m.remainderBy op v) := by
  have hr : op ≠ .read := by rcases hop with rfl | rfl <;> decide
  unfold remainderBy
  split
  · exact .refused hr (.fault _)
  · exact .accumulated (.remainder hop v)

/-- The arithmetic operations: nothing depends on where their value comes from. -/
theorem carried_applyValue (hop : op.isArithmetic = true) (v : Int) :
    Carried m op n (m.applyValue op v) := by
  cases op with
  | add | addImm | subtract | subtractImm | multiply | multiplyImm => exact carried_setChecked rfl _
  | divide => exact carried_divideBy (.inl rfl) v
  | divideImm => exact carried_divideBy (.inr rfl) v
  | modulo => exact carried_remainderBy (.inl rfl) v
  | moduloImm => exact carried_remainderBy (.inr rfl) v
  | _ => cases hop

theorem carried_applyCell (hop : op = .load ∨ op.isArithmetic = true)
    (hcell : op.addressesCell = true) (hr : op ≠ .read) : Carried m op n (m.applyCell op n) := by
  unfold applyCell
  split
  · exact carried_failOutside hcell hr (by assumption)
  · exact .refused hr (.fault _)
  · rename_i v hv
    rcases hop with rfl | hop
    · exact .accumulated (.cell rfl hv)
    · exact carried_applyValue hop v

theorem taken_memory {k : Machine} (h : Taken m k) : k.memory = m.memory := by cases h <;> rfl

theorem taken_regs {k : Machine} (h : Taken m k) : k.regs = m.regs := by cases h <;> rfl

theorem taken_state {k : Machine} (h : Taken m k) : k.state = m.state := by cases h <;> rfl

theorem taken_input {k : Machine} (h : Taken m k) : k.input = m.input.tail := by cases h <;> rfl

theorem taken_warnings {k : Machine} (h : Taken m k) : k.warnings = m.warnings := by
  cases h <;> rfl

theorem taken_cycles {k : Machine} (h : Taken m k) : k.cycles = m.cycles := by cases h <;> rfl

theorem taken_output {k : Machine} (h : Taken m k) : k.output = m.output := by cases h <;> rfl

theorem taken_written {k : Machine} (h : Taken m k) : k.written = m.written := by
  cases h with
  | plain => exact written_takeToken m
  | noted text => exact (written_note _ _).trans (written_takeToken m)

/-- A token that has been taken is stored, or there is no such cell. -/
theorem carried_storeToken {k : Machine} {t : String} {c : Cell} (hk : Taken m k)
    (ht : m.input.head? = some t) (hc : Cell.ofText t = .ok c)
    (hv : ∀ v, c = .num v → Word.inRange v = true) : Carried m .read n (k.store n c) := by
  unfold store failOutside
  rw [taken_memory hk]
  split
  · exact .tookToken rfl hk ht hc hv (by assumption)
  · exact .refusedToken rfl hk (.outside rfl (by simpa using ‹¬ m.memory.holds n = true›))

theorem carried_readInto : Carried m .read n (m.readInto n) := by
  unfold readInto
  dsimp only
  split
  · exact .refusedToken rfl .plain (.fault _)
  · rename_i t ht
    split
    · exact .refusedToken rfl .plain (.tooLong _)
    · rename_i hp
      have hc : Cell.ofText t = .ok (.raw t) := by unfold Cell.ofText; rw [hp]; rfl
      exact carried_storeToken (.noted _) ht hc (fun v hv => by cases hv)
    · rename_i v hp
      have hc : Cell.ofText t = .ok (.num v) := by unfold Cell.ofText; rw [hp]; rfl
      split
      · rename_i hr
        exact carried_storeToken .plain ht hc (fun w hw => by cases hw; exact hr)
      · exact .refusedToken rfl .plain (.fault _)

theorem carried_writeFrom : Carried m .write n (m.writeFrom n) := by
  unfold writeFrom
  split
  · exact carried_failOutside rfl (by decide) (by assumption)
  · split
    · exact .refused (by decide) (.tooLong _)
    · exact .wrote rfl (by assumption)

theorem carried_store : Carried m .store n (m.store n (.num m.regs.accumulator)) := by
  unfold store
  split
  · exact .stored rfl (by assumption)
  · exact .refused (by decide) (.outside rfl (by simpa using ‹¬ m.memory.holds n = true›))

theorem carried_execute (m : Machine) (op : Opcode) (n : Int) :
    Carried m op n (m.execute op n) := by
  cases op with
  | read => exact carried_readInto
  | write => exact carried_writeFrom
  | store => exact carried_store
  | load => exact carried_applyCell (.inl rfl) rfl (by decide)
  | add | subtract | divide | modulo | multiply =>
    exact carried_applyCell (.inr rfl) rfl (by decide)
  | loadImm => exact .accumulated (.operand rfl)
  | addImm | subtractImm | divideImm | moduloImm | multiplyImm => exact carried_applyValue rfl n
  | jump => exact .jumped (.inl rfl)
  | jumpNegative =>
    simp only [execute]
    split
    · exact .jumped (.inr (.inl ⟨rfl, by assumption⟩))
    · exact .passed (.inl ⟨rfl, by assumption⟩)
  | jumpZero =>
    simp only [execute]
    split
    · exact .jumped (.inr (.inr ⟨rfl, by assumption⟩))
    · exact .passed (.inr ⟨rfl, by assumption⟩)
  | halt => exact .halted rfl

/-- What becomes of the word in the registers. -/
inductive Dispatched (m : Machine) : Attempt → Prop
  | unknown (text : String) (h : Opcode.ofCode? m.regs.opcode = none) :
      Dispatched m (m.warn text).done
  | unwritten (d : DigitLimit) (h : Opcode.ofCode? m.regs.opcode = none) :
      Dispatched m (m.fail (.number d))
  | known {op : Opcode} {r : Attempt} (h : Opcode.ofCode? m.regs.opcode = some op)
      (hr : Carried m op m.regs.operand r) : Dispatched m r

theorem dispatched (m : Machine) : Dispatched m m.dispatch := by
  unfold dispatch
  split
  · exact .known (by assumption) (carried_execute _ _ _)
  · split
    · exact .unknown _ (by assumption)
    · exact .unwritten _ (by assumption)

/-! ## Moving on -/

theorem advance_memory (m : Machine) : m.advance.memory = m.memory := by
  unfold advance
  dsimp only
  split <;> rfl

theorem advance_resume (m : Machine) : m.advance.resume = m.resume := by
  unfold advance
  dsimp only
  split <;> rfl

theorem advance_input (m : Machine) : m.advance.input = m.input := by
  unfold advance
  dsimp only
  split <;> rfl

theorem advance_warnings (m : Machine) : m.advance.warnings = m.warnings := by
  unfold advance
  dsimp only
  split <;> rfl

theorem advance_output (m : Machine) : m.advance.output = m.output := by
  unfold advance
  dsimp only
  split <;> rfl

theorem advance_written (m : Machine) : m.advance.written = m.written := by
  unfold advance
  dsimp only
  split <;> exact written_congr rfl

theorem advance_state (m : Machine) : m.advance.state = m.state := by
  unfold advance
  dsimp only
  split <;> rfl

theorem advance_cycles (m : Machine) : m.advance.cycles = m.cycles + 1 := by
  unfold advance
  dsimp only
  split <;> rfl

theorem advance_regs (m : Machine) :
    m.advance.regs = if m.isRunning then { m.regs with pc := m.regs.pc + 1 } else m.regs := by
  unfold advance isRunning
  dsimp only
  split <;> rfl

/-! ## The whole cycle -/

theorem cycle_of_none (h : m.memory.read? m.regs.pc = none) :
    m.cycle = m.failOutside m.regs.pc := by
  unfold cycle
  rw [h]

theorem cycle_of_raw {t : String} (h : m.memory.read? m.regs.pc = some (.raw t)) :
    m.cycle = m.fail (.fault ⟨.notInstruction t, some m.regs.pc, none⟩) := by
  unfold cycle
  rw [h]

theorem cycle_of_num {w : Int} (h : m.memory.read? m.regs.pc = some (.num w)) :
    m.cycle = if (m.fetch w).dispatch.failure.isNone then (m.fetch w).dispatch.machine.advance.done
      else (m.fetch w).dispatch := by
  unfold cycle
  rw [h]

/-- A cycle is a failure, a word carried out and moved on from, or one that fails. -/
theorem cycle_cases {P : Attempt → Prop} (hfail : ∀ e, P (m.fail e))
    (hdone : ∀ w, m.memory.read? m.regs.pc = some (.num w) → ∀ r, Dispatched (m.fetch w) r →
      (r.failure = none → P r.machine.advance.done) ∧ (r.failure ≠ none → P r)) :
    P m.cycle := by
  cases h : m.memory.read? m.regs.pc with
  | none => rw [cycle_of_none h]; exact hfail _
  | some c =>
    cases c with
    | raw t => rw [cycle_of_raw h]; exact hfail _
    | num w =>
      have hd := hdone w h _ (dispatched _)
      rw [cycle_of_num h]
      split
      · rename_i hf
        exact hd.1 (Option.isNone_iff_eq_none.1 hf)
      · rename_i hf
        exact hd.2 (fun hn => hf (Option.isNone_iff_eq_none.2 hn))

/-- What every failure and every word carried out leads to, every cycle leads to. -/
theorem cycle_keeps {P : Machine → Prop} (hfail : ∀ e, P (m.fail e).machine)
    (hdone : ∀ w, m.memory.read? m.regs.pc = some (.num w) → ∀ r, Dispatched (m.fetch w) r →
      (r.failure = none → P r.machine.advance) ∧ (r.failure ≠ none → P r.machine)) :
    P m.cycle.machine :=
  cycle_cases (P := fun r => P r.machine) hfail hdone

/-- An instruction changes no cell but the one at its operand. -/
theorem Carried.cells {r : Attempt} (h : Carried m op n r) {a : Int} (ha : a ≠ n) :
    r.machine.memory.read? a = m.memory.read? a := by
  cases h with
  | refused => rw [fail_memory]
  | refusedToken _ hk => rw [fail_memory, taken_memory hk]
  | stored => exact Memory.read?_set_of_ne _ ha.symm
  | tookToken => exact Memory.read?_set_of_ne _ ha.symm
  | _ => rfl

/-- Only reading and storing change memory. -/
theorem Carried.memory {r : Attempt} (h : Carried m op n r) (hr : op ≠ .read) (hs : op ≠ .store) :
    r.machine.memory = m.memory := by
  cases h with
  | refused => exact fail_memory _ _
  | refusedToken hop => exact absurd hop hr
  | stored hop => exact absurd hop hs
  | tookToken hop => exact absurd hop hr
  | _ => rfl

/-- An instruction changes what is in memory, and never how much. -/
theorem Carried.size {r : Attempt} (h : Carried m op n r) :
    r.machine.memory.size = m.memory.size := by
  cases h with
  | refused => rw [fail_memory]
  | refusedToken _ hk => rw [fail_memory, taken_memory hk]
  | stored => exact Memory.size_set _ _ _
  | tookToken => exact Memory.size_set _ _ _
  | _ => rfl

/-- A cycle changes what is in memory, and never how much. -/
theorem cycle_size (m : Machine) : m.cycle.machine.memory.size = m.memory.size := by
  refine cycle_keeps (P := fun k => k.memory.size = m.memory.size) (fun e => ?_) ?_
  · rw [fail_memory]
  · intro w _ r hr
    have hs : r.machine.memory.size = m.memory.size := by
      cases hr with
      | unknown text => rfl
      | unwritten => rw [fail_memory]; rfl
      | known _ hc => exact hc.size
    exact ⟨fun _ => by rw [advance_memory, hs], fun _ => hs⟩

/-- An instruction that is carried out leaves the state alone, unless it halts. -/
theorem Dispatched.state {r : Attempt} (h : Dispatched m r) (hf : r.failure = none) :
    r.machine.state = m.state ∨ r.machine.state = .halted := by
  cases h with
  | unknown text => exact .inl rfl
  | unwritten => rw [fail_failure] at hf; cases hf
  | known _ hc =>
    cases hc with
    | refused => rw [fail_failure] at hf; cases hf
    | refusedToken => rw [fail_failure] at hf; cases hf
    | @tookToken k _ _ _ hk =>
      have hstate : k.state = m.state := taken_state hk
      exact .inl hstate
    | halted => exact .inr rfl
    | _ => exact .inl rfl

theorem Carried.cycles {r : Attempt} (h : Carried m op n r) : r.machine.cycles = m.cycles := by
  cases h with
  | refused => exact fail_cycles _ _
  | refusedToken _ hk => rw [fail_cycles, taken_cycles hk]
  | @tookToken k _ _ _ hk =>
    have hcycles : k.cycles = m.cycles := taken_cycles hk
    exact hcycles
  | _ => rfl

theorem Dispatched.cycles {r : Attempt} (h : Dispatched m r) : r.machine.cycles = m.cycles := by
  cases h with
  | unknown text => rfl
  | unwritten => exact fail_cycles _ _
  | known _ hc => exact hc.cycles

/-- A cycle that is completed leaves the state alone, unless it halts. -/
theorem cycle_state (hf : m.cycle.failure = none) :
    m.cycle.machine.state = m.state ∨ m.cycle.machine.state = .halted := by
  revert hf
  refine cycle_cases (P := fun r => r.failure = none →
    r.machine.state = m.state ∨ r.machine.state = .halted) (fun e hf => ?_) ?_
  · rw [fail_failure] at hf
    cases hf
  · intro w _ r hr
    constructor
    · intro hn _
      rw [show r.machine.advance.done.machine = r.machine.advance from rfl, advance_state]
      exact hr.state hn
    · intro hn hf
      exact absurd hf hn

/-- A cycle counts if it is completed. -/
theorem cycle_cycles (m : Machine) :
    m.cycle.machine.cycles = m.cycles + if m.cycle.failure.isNone then 1 else 0 := by
  refine cycle_cases (P := fun r => r.machine.cycles = m.cycles +
    if r.failure.isNone then 1 else 0) (fun e => ?_) ?_
  · rw [fail_failure, fail_cycles]
    rfl
  · intro w _ r hr
    have hc : r.machine.cycles = m.cycles := hr.cycles
    constructor
    · intro _
      rw [show r.machine.advance.done.machine = r.machine.advance from rfl, advance_cycles, hc]
      rfl
    · intro hn
      rw [if_neg (fun h => hn (Option.isNone_iff_eq_none.1 h)), hc]
      rfl

/-- What an instruction writes is what it adds to the output. -/
theorem Carried.lines {r : Attempt} (h : Carried m op n r) :
    ∃ ls, r.machine.written = m.written ++ ls ∧
      r.machine.output.toList = m.output.toList ++ ls := by
  cases h with
  | wrote _ hc => exact ⟨[_], written_wrote m _ _, Array.toList_push⟩
  | refused =>
    refine ⟨[], ?_, ?_⟩
    · rw [fail_written, List.append_nil]
    · rw [fail_output, List.append_nil]
  | refusedToken _ hk =>
    refine ⟨[], ?_, ?_⟩
    · rw [fail_written, taken_written hk, List.append_nil]
    · rw [fail_output, taken_output hk, List.append_nil]
  | tookToken _ hk =>
    refine ⟨[], ?_, ?_⟩
    · exact ((written_congr rfl).trans (taken_written hk)).trans (List.append_nil _).symm
    · exact (congrArg Array.toList (taken_output hk)).trans (List.append_nil _).symm
  | dividedByZero =>
    exact ⟨[], (written_warn m _).trans (List.append_nil _).symm, (List.append_nil _).symm⟩
  | halted =>
    exact ⟨[], (written_note m _).trans (List.append_nil _).symm, (List.append_nil _).symm⟩
  | _ => exact ⟨[], (written_congr rfl).trans (List.append_nil _).symm, (List.append_nil _).symm⟩

/-- The lines that a cycle writes are the lines that it adds to the output. -/
theorem cycle_lines (m : Machine) :
    ∃ ls, m.cycle.machine.written = m.written ++ ls ∧
      m.cycle.machine.output.toList = m.output.toList ++ ls := by
  refine cycle_keeps (P := fun k => ∃ ls, k.written = m.written ++ ls ∧
    k.output.toList = m.output.toList ++ ls) (fun e => ⟨[], ?_, ?_⟩) ?_
  · rw [fail_written, List.append_nil]
  · rw [fail_output, List.append_nil]
  · intro w _ r hr
    have hl : ∃ ls, r.machine.written = m.written ++ ls ∧
        r.machine.output.toList = m.output.toList ++ ls := by
      cases hr with
      | unknown text =>
        exact ⟨[], (written_warn (m.fetch w) text).trans (List.append_nil _).symm,
          (List.append_nil _).symm⟩
      | unwritten =>
        refine ⟨[], ?_, ?_⟩
        · rw [fail_written, List.append_nil]; rfl
        · rw [fail_output, List.append_nil]; rfl
      | known _ hc => exact hc.lines
    obtain ⟨ls, hw, ho⟩ := hl
    refine ⟨fun _ => ⟨ls, ?_, ?_⟩, fun _ => ⟨ls, hw, ho⟩⟩
    · rw [advance_written, hw]
    · rw [advance_output, ho]

end DecimalMachine.Machine
