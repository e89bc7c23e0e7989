import DecimalMachine.Proofs.Cycle
/-
  Likeness: two machines that show the same although some things in them differ. A `Likeness`
  says how their memories, their inputs and the lines that they have written may differ, and after
  which errors of the first nothing more is said about the second. A cycle looks at registers, at
  the cells it reads and at the next token, and at nothing else; so like machines stay alike
  (`Alike.cycle`).
-/
namespace DecimalMachine

/-- How memories, inputs and the lines that have been written may differ. Where the first memory
    holds no cell, or the first input is at its end, the other one is the same there or the error
    that follows is spared. -/
structure Likeness where
  memory : Memory → Memory → Prop
  input : List String → List String → Prop
  lines : List String → List String → Prop
  spared : MachineError → Prop
  reads {M M' : Memory} : memory M M' → ∀ a,
    M.read? a = M'.read? a ∧ (M.read? a = none → M.outside a = M'.outside a) ∨
      M.read? a = none ∧ spared (M.outside a)
  writes {M M' : Memory} : memory M M' → ∀ a c, M.holds a = true →
    memory (M.set a c) (M'.set a c)
  tokens {I I' : List String} : input I I' →
    I.head? = I'.head? ∧ input I.tail I'.tail ∨
      I.head? = none ∧ ∀ pc op, spared (.fault ⟨.inputExhausted, pc, op⟩)
  appends {ls ls' : List String} : lines ls ls' → ∀ more, lines (ls ++ more) (ls' ++ more)

namespace Likeness

/-- Same memory, same input. What is left to differ is the notes of the journal, and the address
    to resume at. -/
def exact : Likeness where
  memory := Eq
  input := Eq
  lines := Eq
  spared _ := False
  reads := by rintro M _ rfl a; exact .inl ⟨rfl, fun _ => rfl⟩
  writes := by rintro M _ rfl a c _; rfl
  tokens := by rintro I _ rfl; exact .inl ⟨rfl, rfl⟩
  appends := by rintro ls _ rfl more; rfl

/-- The machines show the same. -/
structure Alike (L : Likeness) (m m' : Machine) : Prop where
  memory : L.memory m.memory m'.memory
  regs : m.regs = m'.regs
  state : m.state = m'.state
  input : L.input m.input m'.input
  output : m.output = m'.output
  warnings : m.warnings = m'.warnings
  cycles : m.cycles = m'.cycles
  written : L.lines m.written m'.written

/-- The attempts fail or succeed alike, unless the first fails with an error that is spared. -/
def AlikeAttempts (L : Likeness) (r r' : Attempt) : Prop :=
  (∃ e, r.failure = some e ∧ L.spared e) ∨
    r.failure = r'.failure ∧ L.Alike r.machine r'.machine

end Likeness

namespace Likeness.Alike

open Machine

variable {L : Likeness} {m m' : Machine}

/-! ## Small steps -/

theorem done (h : L.Alike m m') : L.AlikeAttempts m.done m'.done := .inr ⟨rfl, h⟩

theorem note (h : L.Alike m m') (t t' : Note) : L.Alike (m.note t) (m'.note t') :=
  { memory := h.memory, regs := h.regs, state := h.state, input := h.input, output := h.output,
    warnings := h.warnings, cycles := h.cycles,
    written := by rw [written_note, written_note]; exact h.written }

theorem warn (h : L.Alike m m') (text : String) : L.Alike (m.warn text) (m'.warn text) where
  memory := h.memory
  regs := h.regs
  state := h.state
  input := h.input
  output := h.output
  warnings := congrArg (·.push text) h.warnings
  cycles := h.cycles
  written := by rw [written_warn, written_warn]; exact h.written

theorem setRegs (h : L.Alike m m') (r : Registers) :
    L.Alike { m with regs := r } { m' with regs := r } :=
  { h with regs := rfl, written := h.written }

theorem setState (h : L.Alike m m') (s : RunState) :
    L.Alike { m with state := s } { m' with state := s } :=
  { h with state := rfl, written := h.written }

theorem setAccumulator (h : L.Alike m m') (n : Int) :
    L.Alike (m.setAccumulator n) (m'.setAccumulator n) := by
  unfold Machine.setAccumulator
  rw [h.regs]
  exact h.setRegs _

theorem setPc (h : L.Alike m m') (a : Int) : L.Alike (m.setPc a) (m'.setPc a) := by
  unfold Machine.setPc
  rw [h.regs]
  exact h.setRegs _

theorem fail (h : L.Alike m m') (e : MachineError) : L.AlikeAttempts (m.fail e) (m'.fail e) := by
  refine .inr ⟨by rw [fail_failure, fail_failure], ?_⟩
  unfold Machine.fail
  split
  · exact (h.note _ _).setState _
  · exact h

theorem faultIn (h : L.Alike m m') (op : Opcode) (f : Fault) :
    L.AlikeAttempts (m.faultIn op f) (m'.faultIn op f) := by
  unfold Machine.faultIn
  rw [h.regs]
  exact h.fail _

/-! ## Instructions -/

theorem setChecked (h : L.Alike m m') (op : Opcode) (v : Int) :
    L.AlikeAttempts (m.setChecked op v) (m'.setChecked op v) := by
  unfold Machine.setChecked
  split
  · exact (h.setAccumulator v).done
  · split
    · exact h.faultIn op _
    · exact h.fail _

theorem divideBy (h : L.Alike m m') (op : Opcode) (v : Int) :
    L.AlikeAttempts (m.divideBy op v) (m'.divideBy op v) := by
  unfold Machine.divideBy
  rw [h.regs]
  split
  · exact ((h.warn _).setAccumulator 0).done
  · exact h.setChecked op _

theorem remainderBy (h : L.Alike m m') (op : Opcode) (v : Int) :
    L.AlikeAttempts (m.remainderBy op v) (m'.remainderBy op v) := by
  unfold Machine.remainderBy
  rw [h.regs]
  split
  · exact h.faultIn op _
  · exact (h.setAccumulator _).done

theorem applyValue (h : L.Alike m m') (op : Opcode) (v : Int) :
    L.AlikeAttempts (m.applyValue op v) (m'.applyValue op v) := by
  unfold Machine.applyValue
  rw [h.regs]
  cases op with
  | load | loadImm => exact (h.setAccumulator v).done
  | add | addImm | subtract | subtractImm | multiply | multiplyImm => exact h.setChecked _ _
  | divide | divideImm => exact h.divideBy _ v
  | modulo | moduloImm => exact h.remainderBy _ v
  | _ => exact h.done

/-- Reading a cell goes alike, unless there is none and the error is spared. -/
theorem read (h : L.Alike m m') (a : Int) :
    m.memory.read? a = m'.memory.read? a ∧
        (m.memory.read? a = none → L.AlikeAttempts (m.failOutside a) (m'.failOutside a)) ∨
      m.memory.read? a = none ∧ ∀ r', L.AlikeAttempts (m.failOutside a) r' := by
  rcases L.reads h.memory a with ⟨hr, ho⟩ | ⟨hr, hs⟩
  · refine .inl ⟨hr, fun hn => ?_⟩
    unfold failOutside
    rw [ho hn]
    exact h.fail _
  · exact .inr ⟨hr, fun r' => .inl ⟨_, fail_failure _ _, hs⟩⟩

theorem applyCell (h : L.Alike m m') (op : Opcode) (a : Int) :
    L.AlikeAttempts (m.applyCell op a) (m'.applyCell op a) := by
  unfold Machine.applyCell
  rcases h.read a with ⟨hr, ho⟩ | ⟨hr, hs⟩
  · rw [← hr]
    cases hc : m.memory.read? a with
    | none => exact ho hc
    | some c =>
      cases c with
      | raw t => exact h.faultIn op _
      | num n => exact h.applyValue op n
  · rw [hr]
    exact hs _

theorem store (h : L.Alike m m') (a : Int) (c : Cell) :
    L.AlikeAttempts (m.store a c) (m'.store a c) := by
  unfold Machine.store
  cases hh : m.memory.holds a with
  | true =>
    obtain ⟨d, hd⟩ := Memory.exists_read? hh
    rcases h.read a with ⟨hr, -⟩ | ⟨hr, -⟩
    · rw [Memory.holds_of_read? (hr.symm.trans hd), if_pos rfl, if_pos rfl]
      exact .inr ⟨rfl, { h with memory := L.writes h.memory a c hh, written := h.written }⟩
    · rw [hd] at hr
      cases hr
  | false =>
    have hn : m.memory.read? a = none := Memory.read?_eq_none_iff.2 hh
    rw [if_neg (by decide)]
    rcases h.read a with ⟨hr, ho⟩ | ⟨-, hs⟩
    · rw [Memory.read?_eq_none_iff.1 (hr.symm.trans hn), if_neg (by decide)]
      exact ho hn
    · exact hs _

theorem takeToken (h : L.Alike m m') (hi : L.input m.input.tail m'.input.tail) :
    L.Alike m.takeToken m'.takeToken :=
  { memory := h.memory, regs := h.regs, state := h.state, input := hi, output := h.output,
    warnings := h.warnings, cycles := h.cycles,
    written := by rw [written_takeToken, written_takeToken]; exact h.written }

theorem readInto (h : L.Alike m m') (a : Int) :
    L.AlikeAttempts (m.readInto a) (m'.readInto a) := by
  unfold Machine.readInto
  dsimp only
  rcases L.tokens h.input with ⟨hi, ht⟩ | ⟨hi, hs⟩
  · have h' := h.takeToken ht
    rw [← hi]
    cases m.input.head? with
    | none => exact h'.faultIn _ _
    | some t =>
      dsimp only
      split
      · exact h'.fail _
      · exact (h'.note _ _).store a _
      · split
        · exact h'.store a _
        · exact h'.faultIn _ _
  · rw [hi]
    exact .inl ⟨_, fail_failure _ _, hs _ _⟩

theorem writeFrom (h : L.Alike m m') (a : Int) :
    L.AlikeAttempts (m.writeFrom a) (m'.writeFrom a) := by
  unfold Machine.writeFrom
  rcases h.read a with ⟨hr, ho⟩ | ⟨hr, hs⟩
  · rw [← hr]
    cases hc : m.memory.read? a with
    | none => exact ho hc
    | some c =>
      dsimp only
      split
      · exact h.fail _
      · refine .inr ⟨rfl, { h with output := congrArg (·.push (lineOf c)) h.output, written := ?_ }⟩
        show L.lines (Machine.written { m with output := _, journal := _ })
          (Machine.written { m' with output := _, journal := _ })
        rw [written_wrote, written_wrote]
        exact L.appends h.written [lineOf c]
  · rw [hr]
    exact hs _

theorem jumpTo (h : L.Alike m m') (a : Int) : L.Alike (m.jumpTo a) (m'.jumpTo a) := h.setPc _

theorem execute (h : L.Alike m m') (op : Opcode) (n : Int) :
    L.AlikeAttempts (m.execute op n) (m'.execute op n) := by
  cases op with
  | read => exact h.readInto n
  | write => exact h.writeFrom n
  | store => simp only [Machine.execute, h.regs]; exact h.store n _
  | load | add | subtract | divide | modulo | multiply => exact h.applyCell _ n
  | loadImm | addImm | subtractImm | divideImm | moduloImm | multiplyImm =>
    exact h.applyValue _ n
  | jump => exact (h.jumpTo n).done
  | jumpNegative | jumpZero =>
    simp only [Machine.execute, h.regs]
    split
    · exact (h.jumpTo n).done
    · exact h.done
  | halt => exact ((h.note _ _).setState _).done

/-! ## The cycle -/

theorem fetch (h : L.Alike m m') (w : Int) : L.Alike (m.fetch w) (m'.fetch w) := by
  unfold Machine.fetch
  rw [h.regs]
  exact h.setRegs _

theorem dispatch (h : L.Alike m m') : L.AlikeAttempts m.dispatch m'.dispatch := by
  unfold Machine.dispatch
  rw [h.regs]
  split
  · exact h.execute _ _
  · split
    · exact (h.warn _).done
    · exact h.fail _

theorem advance (h : L.Alike m m') : L.Alike m.advance m'.advance := by
  have hc : L.Alike { m with cycles := m.cycles + 1 } { m' with cycles := m'.cycles + 1 } :=
    { h with cycles := congrArg (· + 1) h.cycles, written := h.written }
  have hs : isRunning { m' with cycles := m'.cycles + 1 } =
      isRunning { m with cycles := m.cycles + 1 } := by
    unfold isRunning
    rw [hc.state]
  have hr : m'.regs.pc = m.regs.pc := by rw [h.regs]
  unfold Machine.advance
  dsimp only
  rw [hs, hr]
  split
  · exact hc.setPc _
  · exact hc

/-- Like machines do the same in a cycle, and are alike behind it. -/
theorem cycle (h : L.Alike m m') : L.AlikeAttempts m.cycle m'.cycle := by
  have hpc : m'.regs.pc = m.regs.pc := by rw [h.regs]
  rcases h.read m.regs.pc with ⟨hr, ho⟩ | ⟨hr, hs⟩
  · cases hc : m.memory.read? m.regs.pc with
    | none =>
      rw [cycle_of_none hc, cycle_of_none (by rw [hpc, ← hr, hc]), hpc]
      exact ho hc
    | some c =>
      cases c with
      | raw t =>
        rw [cycle_of_raw hc, cycle_of_raw (by rw [hpc, ← hr, hc]), hpc]
        exact h.fail _
      | num w =>
        rw [cycle_of_num hc, cycle_of_num (by rw [hpc, ← hr, hc])]
        rcases (h.fetch w).dispatch with ⟨e, he, hs⟩ | ⟨hf, hd⟩
        · refine .inl ⟨e, ?_, hs⟩
          rw [if_neg (by rw [he]; exact Bool.false_ne_true), he]
        · rw [← hf]
          split
          · exact hd.advance.done
          · exact .inr ⟨hf, hd⟩
  · rw [cycle_of_none hr]
    exact hs _

end Likeness.Alike

end DecimalMachine
