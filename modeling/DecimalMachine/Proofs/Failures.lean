import DecimalMachine.Proofs.Effects
import DecimalMachine.Proofs.ImageReading
import DecimalMachine.Proofs.Numerals
/-
  Failures: when an instruction that fails leaves the machine faulted. An instruction of a machine
  whose numbers are in range does (`fatal_cycle`), with one exception: it reads a token that is a
  numeral with more digits than a number may have, and then the machine goes on as if nothing had
  happened (`cycle_of_reads`). Of the program counter it is only assumed that it can be written, as an
  image may ask for any other.
-/
namespace DecimalMachine

/-- The digits of a token that is a numeral. -/
def Text.digitsOf (t : String) : List Char := (splitSign (trim t.toList)).2

/-- The number that a token stands for that is a numeral, however long it is. -/
def Text.valueOf (t : String) : Int := numeralValue (trim t.toList)

/-- A token that can be read: if it is a numeral, it has no more digits than a number may have. -/
def Text.Legible (t : String) : Prop :=
  isNumeral (trim t.toList) = true → (digitsOf t).length ≤ maxDigits

/-- If the attempt has failed, it has failed for good and has left the machine faulted. -/
def Attempt.Fatal (r : Attempt) : Prop :=
  ∀ e, r.failure = some e → e.isFatal = true ∧ r.machine.state = .faulted

namespace Machine

variable {size : Nat} {m m' : Machine}

/-! ## Machines in range -/

/-- The machine is sound but for its program counter, which may be anywhere as long as it can be
    written. -/
structure Bounded (size : Nat) (m : Machine) : Prop where
  atZero : (m.setPc 0).Sound size
  pc : Text.IsWritable m.regs.pc

theorem Bounded.of_eq (h : Bounded size m) (hm : m'.memory = m.memory) (hr : m'.regs = m.regs) :
    Bounded size m' :=
  ⟨h.atZero.of_eq hm (by simp only [setPc, hr]), hr ▸ h.pc⟩

theorem Bounded.setMemory (h : Bounded size m) {memory : Memory} (hs : memory.size = m.memory.size)
    (hr : memory.Ranged) : Bounded size { m with memory } :=
  ⟨h.atZero.setMemory hs hr, h.pc⟩

theorem Sound.bounded (h : m.Sound size) : Bounded size m :=
  ⟨h.setPc (Int.le_refl 0) (by omega), h.isWritable_pc⟩

/-- A machine that starts over may start anywhere. -/
theorem bounded_reset (m : Machine) {origin : Int} (hr : m.memory.Ranged)
    (ho : Text.IsWritable origin) : Bounded m.memory.size (m.reset origin) :=
  ⟨sound_reset m 0 hr (Int.le_refl 0) (Int.natCast_nonneg _), ho⟩

/-- At an instruction the program counter is inside memory. -/
theorem Bounded.sound (h : Bounded size m) (hh : m.memory.holds m.regs.pc = true) :
    m.Sound size := by
  have hpc := Memory.holds_iff.1 hh
  have hsize : m.memory.size = size := h.atZero.size_eq
  exact h.atZero.of_setPc hpc.1 (by omega)

/-- A failure in front of memory or behind it changes no register. -/
theorem next_of_not_holds (hh : m.memory.holds m.regs.pc = false) :
    m.next.memory = m.memory ∧ m.next.regs = m.regs := by
  unfold next
  rw [cycle_of_none (Memory.read?_eq_none_iff.2 hh)]
  exact ⟨fail_memory _ _, fail_regs _ _⟩

theorem Bounded.next (h : Bounded size m) (hrun : m.isRunning = true) : Bounded size m.next := by
  cases hh : m.memory.holds m.regs.pc with
  | true => exact ((h.sound hh).next hrun).bounded
  | false =>
    obtain ⟨hm, hr⟩ := next_of_not_holds hh
    exact h.of_eq hm hr

/-- An instruction that is completed has been fetched from a cell. -/
theorem holds_of_completed (hf : m.cycle.failure = none) : m.memory.holds m.regs.pc = true := by
  cases hh : m.memory.holds m.regs.pc with
  | true => rfl
  | false =>
    rw [cycle_of_none (Memory.read?_eq_none_iff.2 hh)] at hf
    exact nomatch (fail_failure _ _).symm.trans hf

theorem Bounded.iterate (h : Bounded size m) {k : Nat}
    (hrun : ∀ i < k, (Machine.next^[i] m).isRunning = true) :
    Bounded size (Machine.next^[k] m) := by
  induction k with
  | zero => exact h
  | succ k ih =>
    rw [Function.iterate_succ_apply']
    exact (ih (fun i hi => hrun i (by omega))).next (hrun k (by omega))

/-- An instruction takes at most one token. -/
theorem input_next (m : Machine) : m.next.input <:+ m.input := by
  have h : m.next.input = if m.operation? = some .read then m.input.tail else m.input :=
    input_cycle m
  rw [h]
  split
  · exact List.tail_suffix _
  · exact List.suffix_rfl

theorem input_iterate (m : Machine) (k : Nat) : (next^[k] m).input <:+ m.input := by
  induction k with
  | zero => exact List.suffix_rfl
  | succ k ih =>
    rw [Function.iterate_succ_apply']
    exact (input_next _).trans ih

/-! ## Failures for good -/

theorem fatal_done (m : Machine) : m.done.Fatal := nofun

theorem fatal_fail (m : Machine) {e : MachineError} (he : e.isFatal = true) :
    (m.fail e).Fatal := by
  intro e' h
  rw [fail_failure] at h
  obtain rfl := Option.some.inj h
  exact ⟨he, fail_state m he⟩

/-- The results of the operations are short enough to be written into the fault. -/
theorem fatal_setChecked (m : Machine) (op : Opcode) {v : Int} (hv : v.natAbs < 10 ^ 8) :
    (m.setChecked op v).Fatal := by
  unfold setChecked
  split
  · exact fatal_done _
  · rw [Text.writeNumeral_of_lt (by decide) hv]
    exact fatal_fail _ rfl

/-- The arithmetic operations on numbers in range. -/
theorem fatal_applyValue (op : Opcode) {n : Int} (ha : Word.inRange m.regs.accumulator = true)
    (hn : Word.inRange n = true) : (m.applyValue op n).Fatal := by
  have ha := Word.natAbs_le_of_inRange ha
  have hn := Word.natAbs_le_of_inRange hn
  have hdivide : (m.divideBy op n).Fatal := by
    unfold divideBy
    split
    · exact fatal_done _
    · refine fatal_setChecked m op ?_
      rw [Int.natAbs_tdiv]
      exact Nat.lt_of_le_of_lt (Nat.div_le_self _ _) (by omega)
  have hremainder : (m.remainderBy op n).Fatal := by
    unfold remainderBy
    split
    · exact fatal_fail _ rfl
    · exact fatal_done _
  have hproduct : (m.regs.accumulator * n).natAbs < 10 ^ 8 := by
    have hle := Nat.mul_le_mul ha hn
    rw [Int.natAbs_mul]
    omega
  cases op with
  | add | addImm => exact fatal_setChecked _ _ (by omega)
  | subtract | subtractImm => exact fatal_setChecked _ _ (by omega)
  | multiply | multiplyImm => exact fatal_setChecked _ _ hproduct
  | divide | divideImm => exact hdivide
  | modulo | moduloImm => exact hremainder
  | _ => exact fatal_done _

theorem fatal_failOutside (m : Machine) {a : Int} (ha : Text.IsWritable a) :
    (m.failOutside a).Fatal := fatal_fail m (Memory.isFatal_outside ha)

theorem fatal_applyCell (op : Opcode) {a : Int} (ha : Word.inRange m.regs.accumulator = true)
    (hm : m.memory.Ranged) (hw : Text.IsWritable a) : (m.applyCell op a).Fatal := by
  unfold applyCell
  split
  · exact fatal_failOutside m hw
  · exact fatal_fail _ rfl
  · exact fatal_applyValue op ha (hm.read? (by assumption))

theorem fatal_store (m : Machine) {a : Int} (c : Cell) (hw : Text.IsWritable a) :
    (m.store a c).Fatal := by
  unfold store
  split
  · exact fatal_done _
  · exact fatal_failOutside m hw

theorem fatal_writeFrom {a : Int} (hm : m.memory.Ranged) (hw : Text.IsWritable a) :
    (m.writeFrom a).Fatal := by
  unfold writeFrom
  split
  · exact fatal_failOutside m hw
  · rename_i c hc
    rw [checkLine_of_ranged hm hc]
    exact fatal_done _

/-- Every operation but reading. -/
theorem fatal_execute {op : Opcode} (hop : op ≠ .read) {n : Int}
    (ha : Word.inRange m.regs.accumulator = true) (hm : m.memory.Ranged)
    (hn : Word.inRange n = true) : (m.execute op n).Fatal := by
  have hw := Word.isWritable_of_inRange hn
  cases op with
  | read => exact absurd rfl hop
  | write => exact fatal_writeFrom hm hw
  | store => exact fatal_store m _ hw
  | load | add | subtract | divide | modulo | multiply => exact fatal_applyCell _ ha hm hw
  | loadImm | addImm | subtractImm | divideImm | moduloImm | multiplyImm =>
    exact fatal_applyValue _ ha hn
  | jump => exact fatal_done _
  | jumpNegative | jumpZero =>
    simp only [execute]
    split <;> exact fatal_done _
  | halt => exact fatal_done _

/-! ## Reading tokens -/

/-- The next instruction reads a token, and the token is a numeral. -/
structure Reads (m : Machine) (t : String) : Prop where
  word : ∃ w, m.memory.read? m.regs.pc = some (.num w) ∧
    Opcode.ofCode? (Word.split w).1 = some .read
  token : m.input.head? = some t
  numeral : Text.isNumeral (Text.trim t.toList) = true

/-- The next instruction reads a numeral with more digits than a number may have. -/
def Chokes (m : Machine) : Prop := ∃ t, m.Reads t ∧ maxDigits < (Text.digitsOf t).length

theorem parse_of_numeral {t : String} (h : Text.isNumeral (Text.trim t.toList) = true) :
    Word.parse t = if (Text.digitsOf t).length ≤ maxDigits then .ok (some (Text.valueOf t))
      else .error (.reading (Text.digitsOf t).length) := by
  unfold Word.parse Text.readNumeral Text.intOfNumeral Text.natOfDigits Text.digitsOf
  rw [if_pos h]
  split <;> rfl

/-- Reading a token fails for good unless the token is a numeral that is too long. -/
theorem fatal_readInto {a : Int} (hw : Text.IsWritable a) (h : ∀ t, m.input.head? = some t → Text.Legible t) :
    (m.readInto a).Fatal := by
  unfold readInto
  dsimp only
  split
  · exact fatal_fail _ rfl
  · rename_i t ht
    split
    · rename_i e he
      -- What is no numeral cannot be too long a number.
      exfalso
      cases hnum : Text.isNumeral (Text.trim t.toList) with
      | true =>
        rw [parse_of_numeral hnum, if_pos (h t ht hnum)] at he
        cases he
      | false =>
        unfold Word.parse Text.readNumeral at he
        rw [hnum] at he
        cases he
    · exact fatal_store _ _ hw
    · split
      · exact fatal_store _ _ hw
      · exact fatal_fail _ rfl

/-- What reading a numeral comes to, if the numeral is not that of a word. -/
theorem readInto_of_numeral {t : String} (ht : m.input.head? = some t)
    (hn : Text.isNumeral (Text.trim t.toList) = true) (a : Int) :
    ((Text.digitsOf t).length ≤ maxDigits → Word.inRange (Text.valueOf t) = false →
      m.readInto a = m.takeToken.faultIn .read (.inputOutOfRange (Text.valueOf t))) ∧
    (maxDigits < (Text.digitsOf t).length →
      m.readInto a = m.takeToken.fail (.number (.reading (Text.digitsOf t).length))) := by
  unfold readInto
  rw [ht]
  dsimp only
  rw [parse_of_numeral hn]
  constructor
  · intro hlen hout
    rw [if_pos hlen]
    dsimp only
    rw [hout]
    exact if_neg Bool.false_ne_true
  · intro hlen
    rw [if_neg (Nat.not_le.2 hlen)]

/-! ## The cycle -/

/-- A cycle of a machine in range fails for good unless it reads a numeral that is too long. -/
theorem fatal_cycle (h : Bounded size m) (hc : ¬ m.Chokes) : m.cycle.Fatal := by
  cases hw : m.memory.read? m.regs.pc with
  | none =>
    rw [cycle_of_none hw]
    exact fatal_failOutside m h.pc
  | some c =>
    cases c with
    | raw t =>
      rw [cycle_of_raw hw]
      exact fatal_fail _ rfl
    | num w =>
      rw [cycle_of_num hw]
      split
      · exact fatal_done _
      · unfold dispatch
        split
        · rename_i op hop
          by_cases hr : op = .read
          · subst hr
            have hoperand := Word.isWritable_of_inRange (Word.inRange_operand w)
            refine fatal_readInto hoperand fun t ht hn => Nat.not_lt.1 fun hlen => hc ?_
            exact ⟨t, ⟨⟨w, hw, hop⟩, ht, hn⟩, hlen⟩
          · exact fatal_execute hr h.atZero.accumulator h.atZero.ranged (Word.inRange_operand w)
        · have hcode : Word.inRange (m.fetch w).regs.opcode = true :=
            Word.inRange_opcode (h.atZero.ranged.read? hw)
          rw [Word.writeNumeral_of_inRange hcode]
          exact fatal_done _

theorem dispatch_of_reads {w : Int} (hop : Opcode.ofCode? (Word.split w).1 = some .read) :
    (m.fetch w).dispatch = (m.fetch w).readInto (Word.split w).2 := by
  have hop : Opcode.ofCode? (m.fetch w).regs.opcode = some .read := hop
  unfold dispatch
  rw [hop]
  rfl

/-- An instruction that reads a numeral outside the range of words fails. If the number is not too
    long it is a fault; if it is, the machine stays in the state that it is in. -/
theorem cycle_of_reads {t : String} (h : m.Reads t) :
    ((Text.digitsOf t).length ≤ maxDigits → Word.inRange (Text.valueOf t) = false →
      m.cycle.failure = some (.fault
        ⟨.inputOutOfRange (Text.valueOf t), some m.regs.pc, some Opcode.read.code⟩)) ∧
    (maxDigits < (Text.digitsOf t).length →
      m.cycle.failure = some (.number (.reading (Text.digitsOf t).length)) ∧
        m.next.state = m.state) := by
  obtain ⟨w, hw, hop⟩ := h.word
  have hcycle := cycle_of_num hw
  rw [dispatch_of_reads hop] at hcycle
  obtain ⟨hfault, hlong⟩ := readInto_of_numeral (m := m.fetch w) h.token h.numeral (Word.split w).2
  constructor
  · intro hlen hout
    rw [hfault hlen hout] at hcycle
    rw [hcycle]
    rfl
  · intro hlen
    rw [hlong hlen] at hcycle
    unfold next
    rw [hcycle]
    exact ⟨rfl, rfl⟩

end Machine

end DecimalMachine
