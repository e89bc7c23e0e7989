import Mathlib.Data.List.Induction
import DecimalMachine.Program
import DecimalMachine.Proofs.Loading
import DecimalMachine.Proofs.Numerals
/-
  Ranges: what holds of a machine whatever it has been asked to do. The numbers in memory and the
  accumulator stay in the range of words, the program counter stays near memory, and the registers
  of the instruction at work are the halves of one word (`Machine.Sound`). Division and remainder
  need no check for this: the one never gives more than the checked range, the other never more
  than the accumulator. Along a whole session the output is what has been written since the
  machine last started over (`sound_session`).
-/
namespace DecimalMachine

namespace Word

/-! ## Halves of words -/

theorem split_operand_bounds (w : Int) : -100 < (split w).2 ∧ (split w).2 < 100 :=
  ⟨Int.lt_tmod_of_pos w (by decide), Int.tmod_lt_of_pos w (by decide)⟩

/-- The operand under a code that is not negative is an address of two digits. -/
theorem split_operand_nonneg {w : Int} (h : 0 < (split w).1) : 0 ≤ (split w).2 := by
  have hj := join_split w
  have hb := split_operand_bounds w
  unfold join at hj
  exact Int.tmod_nonneg 100 (by omega)

theorem inRange_operand (w : Int) : inRange (split w).2 = true := by
  have h := split_operand_bounds w
  exact inRange_iff.2 ⟨by omega, by omega⟩

theorem inRange_opcode {w : Int} (h : inRange w = true) : inRange (split w).1 = true := by
  have hw := natAbs_le_of_inRange h
  have hd : (split w).1.natAbs ≤ w.natAbs := by
    rw [show (split w).1 = w.tdiv 100 from rfl, Int.natAbs_tdiv]
    exact Nat.div_le_self _ _
  exact inRange_iff.2 ⟨by omega, by omega⟩

/-- A remainder is no further from zero than what has been divided. -/
theorem inRange_tmod {a : Int} (h : inRange a = true) (d : Int) : inRange (a.tmod d) = true := by
  have hr := inRange_iff.1 h
  have hm : (a.tmod d).natAbs ≤ a.natAbs := by
    rw [Int.natAbs_tmod]
    exact Nat.mod_le _ _
  exact inRange_iff.2 ⟨by omega, by omega⟩

/-- A remainder that is not zero has the sign of what has been divided. -/
theorem tmod_sign (a d : Int) : a.tmod d = 0 ∨ (a.tmod d).sign = a.sign := by
  by_cases hdvd : d ∣ a
  · exact .inl (Int.tmod_eq_zero_of_dvd hdvd)
  · exact .inr ((Int.sign_tmod a d).trans (if_neg hdvd))

end Word

namespace Machine

/-! ## Sound machines -/

/-- A machine with `size` cells whose numbers are all in range, and whose program counter is one
    that a program can lead to. -/
structure Sound (size : Nat) (m : Machine) : Prop where
  size_eq : m.memory.size = size
  ranged : m.memory.Ranged
  accumulator : Word.inRange m.regs.accumulator = true
  pc_nonneg : 0 ≤ m.regs.pc
  pc_le : m.regs.pc ≤ max (size : Int) 99
  halves : m.regs.instruction = 100 * m.regs.opcode + m.regs.operand
  instruction : Word.inRange m.regs.instruction = true

variable {size : Nat} {m m' : Machine}

/-- The number of a cell of such a memory is short enough to be written. -/
theorem checkLine_of_ranged {memory : Memory} (h : memory.Ranged) {a : Int} {c : Cell}
    (hc : memory.read? a = some c) : checkLine c = .ok () := by
  cases c with
  | raw t => rfl
  | num n =>
    simp only [checkLine, Word.writeNumeral_of_inRange (h.read? hc)]
    rfl

/-- Only memory and the registers matter. -/
theorem Sound.of_eq (h : Sound size m) (hm : m'.memory = m.memory) (hr : m'.regs = m.regs) :
    Sound size m' :=
  ⟨hm ▸ h.size_eq, hm ▸ h.ranged, hr ▸ h.accumulator, hr ▸ h.pc_nonneg, hr ▸ h.pc_le,
    hr ▸ h.halves, hr ▸ h.instruction⟩

theorem Sound.setPc (h : Sound size m) {a : Int} (h0 : 0 ≤ a) (h1 : a ≤ max (size : Int) 99) :
    Sound size (m.setPc a) :=
  ⟨h.size_eq, h.ranged, h.accumulator, h0, h1, h.halves, h.instruction⟩

theorem Sound.setMemory (h : Sound size m) {memory : Memory} (hs : memory.size = m.memory.size)
    (hr : memory.Ranged) : Sound size { m with memory } :=
  ⟨hs.trans h.size_eq, hr, h.accumulator, h.pc_nonneg, h.pc_le, h.halves, h.instruction⟩

/-- An address in memory, just behind it or of two digits can be written. -/
theorem Sound.isWritable_pc (h : Sound size m) : Text.IsWritable m.regs.pc := by
  have hsize := m.memory.size_lt
  have hindices : 100 < Capacity.indices := by decide
  have h0 := h.pc_nonneg
  have h1 := h.pc_le
  rw [← h.size_eq] at h1
  exact Memory.isWritable_of_lt_indices (by omega)

theorem Sound.setAccumulator (h : Sound size m) {v : Int} (hv : Word.inRange v = true) :
    Sound size (m.setAccumulator v) :=
  ⟨h.size_eq, h.ranged, hv, h.pc_nonneg, h.pc_le, h.halves, h.instruction⟩

/-- A machine that starts over is sound if it starts inside memory or just behind it. -/
theorem sound_reset (m : Machine) (origin : Int) (hr : m.memory.Ranged) (h0 : 0 ≤ origin)
    (h1 : origin ≤ m.memory.size) : Sound m.memory.size (m.reset origin) where
  size_eq := rfl
  ranged := hr
  accumulator := rfl
  pc_nonneg := h0
  pc_le := by
    show origin ≤ max (m.memory.size : Int) 99
    omega
  halves := rfl
  instruction := rfl

theorem Sound.fetch (h : Sound size m) {w : Int} (hw : m.memory.read? m.regs.pc = some (.num w)) :
    Sound size (m.fetch w) where
  size_eq := h.size_eq
  ranged := h.ranged
  accumulator := h.accumulator
  pc_nonneg := h.pc_nonneg
  pc_le := h.pc_le
  halves := by
    have hj := Word.join_split w
    unfold Word.join at hj
    simp only [Machine.fetch]
    omega
  instruction := h.ranged.read? hw

/-! ## One cycle -/

/-- The values for the accumulator are in range, the checked ones and the others. -/
theorem Gives.inRange {op : Opcode} {n v : Int} (h : Gives m op n v) (hs : Sound size m)
    (hn : Word.inRange n = true) : Word.inRange v = true := by
  cases h with
  | operand => exact hn
  | cell _ hv => exact hs.ranged.read? hv
  | checked _ hv => exact hv
  | remainder _ d => exact Word.inRange_tmod hs.accumulator d

/-- An instruction leaves the program counter where it is, or one before the target of a jump. -/
def Aimed (m : Machine) (r : Attempt) : Prop :=
  r.machine.regs.pc = m.regs.pc ∨
    r.failure = none ∧ r.machine.state = m.state ∧ r.machine.regs.pc = m.regs.operand - 1 ∧
      ∃ op, Opcode.ofCode? m.regs.opcode = some op ∧ op.isJump = true

theorem Dispatched.aimed {r : Attempt} (h : Dispatched m r) : Aimed m r := by
  cases h with
  | unknown text => exact .inl rfl
  | unwritten => exact .inl (congrArg Registers.pc (fail_regs _ _))
  | @known op _ hop hc =>
    cases hc with
    | refused => exact .inl (congrArg Registers.pc (fail_regs _ _))
    | refusedToken _ hk =>
      exact .inl (congrArg Registers.pc ((fail_regs _ _).trans (taken_regs hk)))
    | @tookToken k _ _ _ hk =>
      have hr : k.regs = m.regs := taken_regs hk
      exact .inl (congrArg Registers.pc hr)
    | jumped ho =>
      refine .inr ⟨rfl, rfl, rfl, op, hop, ?_⟩
      rcases ho with rfl | ⟨rfl, -⟩ | ⟨rfl, -⟩ <;> rfl
    | _ => exact .inl rfl

/-- Behind an instruction that is carried out the program counter has stayed, has moved on by one
    or is the operand of a jump. -/
theorem Aimed.advance {r : Attempt} (h : Aimed m r) (hrun : m.isRunning = true) :
    r.machine.advance.regs.pc = m.regs.pc ∨ r.machine.advance.regs.pc = m.regs.pc + 1 ∨
      r.machine.advance.regs.pc = m.regs.operand ∧
        ∃ op, Opcode.ofCode? m.regs.opcode = some op ∧ op.isJump = true := by
  rw [advance_regs]
  rcases h with hp | ⟨-, hst, hp, hj⟩
  · split
    · exact .inr (.inl (congrArg (· + 1) hp))
    · exact .inl hp
  · -- A jump does not stop the machine, so the program counter does move on.
    have hrun' : r.machine.isRunning = true := by
      unfold isRunning at hrun ⊢
      rw [hst]
      exact hrun
    rw [if_pos hrun']
    refine .inr (.inr ⟨?_, hj⟩)
    show r.machine.regs.pc + 1 = _
    omega

/-- What an instruction leaves is sound but for the program counter. -/
theorem Dispatched.sound {r : Attempt} (h : Dispatched m r) (hs : Sound size m)
    (hn : Word.inRange m.regs.operand = true) : Sound size (r.machine.setPc m.regs.pc) := by
  cases h with
  | unknown text => exact hs.of_eq rfl rfl
  | unwritten d =>
    have hr := fail_regs m (.number d)
    exact hs.of_eq (fail_memory m _) (by simp only [Machine.setPc, hr])
  | known hop hc =>
    cases hc with
    | @refused e =>
      have hr := fail_regs m e
      exact hs.of_eq (fail_memory m e) (by simp only [Machine.setPc, hr])
    | @refusedToken k e _ hk =>
      have hr : (k.fail e).machine.regs = m.regs := (fail_regs k e).trans (taken_regs hk)
      exact hs.of_eq ((fail_memory k e).trans (taken_memory hk))
        (by simp only [Machine.setPc, hr])
    | accumulated hv => exact (hs.setAccumulator (hv.inRange hs hn)).of_eq rfl rfl
    | dividedByZero => exact (hs.setAccumulator rfl).of_eq rfl rfl
    | stored =>
      have hm := hs.ranged.set m.regs.operand (c := .num m.regs.accumulator)
        (fun v hv => by cases hv; exact hs.accumulator)
      exact (hs.setMemory (Memory.size_set _ _ _) hm).of_eq rfl rfl
    | @tookToken k t c _ hk _ _ hv =>
      have hr : k.regs = m.regs := taken_regs hk
      have hm := hs.ranged.set m.regs.operand hv
      exact (hs.setMemory (Memory.size_set _ _ _) hm).of_eq rfl
        (by simp only [Machine.setPc, done, hr])
    | wrote => exact hs.of_eq rfl rfl
    | jumped => exact hs.of_eq rfl rfl
    | passed => exact hs.of_eq rfl rfl
    | halted => exact hs.of_eq rfl rfl

/-- The program counter aside, moving on changes no register. -/
theorem Sound.advance {a : Int} (h : Sound size (m.setPc a)) : Sound size (m.advance.setPc a) := by
  refine h.of_eq (advance_memory m) ?_
  simp only [Machine.setPc, advance_regs]
  split <;> rfl

theorem Sound.of_setPc {a : Int} (h : Sound size (m.setPc a)) (h0 : 0 ≤ m.regs.pc)
    (h1 : m.regs.pc ≤ max (size : Int) 99) : Sound size m :=
  (h.setPc h0 h1).of_eq rfl rfl

/-- A cycle leaves the program counter where it is, moves it on by one behind a cell, or puts it at
    an address of two digits. -/
theorem pc_next (hrun : m.isRunning = true) :
    m.next.regs.pc = m.regs.pc ∨
      m.next.regs.pc = m.regs.pc + 1 ∧ m.memory.holds m.regs.pc = true ∨
      0 ≤ m.next.regs.pc ∧ m.next.regs.pc < 100 := by
  refine cycle_keeps (P := fun k => k.regs.pc = m.regs.pc ∨
    k.regs.pc = m.regs.pc + 1 ∧ m.memory.holds m.regs.pc = true ∨
    0 ≤ k.regs.pc ∧ k.regs.pc < 100) (fun e => .inl ?_) (fun w hw r hr => ⟨fun _ => ?_, fun hf => ?_⟩)
  · rw [fail_regs]
  · rcases hr.aimed.advance hrun with hp | hp | ⟨hp, op, hop, -⟩
    · exact .inl hp
    · exact .inr (.inl ⟨hp, Memory.holds_of_read? hw⟩)
    · have hp : r.machine.advance.regs.pc = (Word.split w).2 := hp
      have hcode : op.code = (Word.split w).1 := Opcode.code_of_ofCode? hop
      have hn := Word.split_operand_nonneg (hcode ▸ op.code_pos)
      have hb := Word.split_operand_bounds w
      omega
  · rcases hr.aimed with hp | ⟨hn, -⟩
    · exact .inl hp
    · exact absurd hn hf

/-- No cycle leads in front of memory. -/
theorem pc_next_nonneg (hrun : m.isRunning = true) (hpc : 0 ≤ m.regs.pc) : 0 ≤ m.next.regs.pc := by
  have hnext := pc_next hrun
  omega

theorem pc_iterate_nonneg {k : Nat} (hrun : ∀ i < k, (Machine.next^[i] m).isRunning = true)
    (hpc : 0 ≤ m.regs.pc) : 0 ≤ (Machine.next^[k] m).regs.pc := by
  induction k with
  | zero => exact hpc
  | succ k ih =>
    rw [Function.iterate_succ_apply']
    exact pc_next_nonneg (hrun k (by omega)) (ih fun i hi => hrun i (by omega))

/-- No cycle of a running machine leads out of the ranges. -/
theorem Sound.next (hs : Sound size m) (hrun : m.isRunning = true) : Sound size m.next := by
  have hset : Sound size (m.next.setPc m.regs.pc) := by
    refine cycle_keeps (P := fun k => Sound size (k.setPc m.regs.pc)) (fun e => ?_) ?_
    · exact hs.of_eq (fail_memory m e) (by simp only [Machine.setPc, fail_regs])
    · intro w hw r hr
      have hsr : Sound size (r.machine.setPc m.regs.pc) :=
        hr.sound (hs.fetch hw) (Word.inRange_operand w)
      exact ⟨fun _ => hsr.advance, fun _ => hsr⟩
  have h0 := hs.pc_nonneg
  have h1 := hs.pc_le
  have hpc : 0 ≤ m.next.regs.pc ∧ m.next.regs.pc ≤ max (size : Int) 99 := by
    rcases pc_next hrun with hp | ⟨hp, hh⟩ | hp
    · omega
    · have hlt := (Memory.holds_iff.1 hh).2
      rw [hs.size_eq] at hlt
      omega
    · omega
  exact hset.of_setPc hpc.1 hpc.2

theorem Sound.iterate (hs : Sound size m) {k : Nat}
    (hrun : ∀ i < k, (Machine.next^[i] m).isRunning = true) :
    Sound size (Machine.next^[k] m) := by
  induction k with
  | zero => exact hs
  | succ k ih =>
    rw [Function.iterate_succ_apply']
    exact (ih (fun i hi => hrun i (by omega))).next (hrun k (by omega))

/-- What cycles write is what they add to the output. -/
theorem iterate_lines (m : Machine) (k : Nat) :
    ∃ ls, (Machine.next^[k] m).written = m.written ++ ls ∧
      (Machine.next^[k] m).output.toList = m.output.toList ++ ls := by
  induction k generalizing m with
  | zero => exact ⟨[], (List.append_nil _).symm, (List.append_nil _).symm⟩
  | succ k ih =>
    obtain ⟨ls, hw, ho⟩ := cycle_lines m
    obtain ⟨ls', hw', ho'⟩ := ih m.next
    refine ⟨ls ++ ls', ?_, ?_⟩
    · rw [Function.iterate_succ_apply, hw', ← List.append_assoc, ← hw]
      rfl
    · rw [Function.iterate_succ_apply, ho', ← List.append_assoc, ← ho]
      rfl

end Machine

namespace Image

/-! ## Origins -/

/-- The origin that has been read is not behind the words that have been read. -/
def Reading.Placed (r : Reading) : Prop := ∀ o, r.origin = some o → o ≤ r.words.size

theorem Reading.Placed.takeWord {r r' : Reading} (h : r.Placed) {number : Nat}
    {text comment : List Char} (hr : r.takeWord number text comment = .ok r') : r'.Placed := by
  unfold Reading.takeWord at hr
  dsimp only at hr
  split at hr
  · cases hr
  · split at hr
    · cases hr
    · split at hr
      · cases hr
      · obtain rfl := Except.ok.inj hr
        intro o ho
        have hle := h o ho
        show o ≤ (r.words.push _).size
        rw [Array.size_push]
        omega

theorem Reading.Placed.takeLine {r r' : Reading} (h : r.Placed) {number : Nat}
    {line : List Char} (hr : r.takeLine number line = .ok r') : r'.Placed := by
  unfold Reading.takeLine at hr
  split at hr
  · obtain rfl := Except.ok.inj hr
    exact h
  · split at hr
    · obtain rfl := Except.ok.inj hr
      exact h
    · obtain rfl := Except.ok.inj hr
      rintro _ ⟨⟩
      exact Nat.le_refl _
  · exact h.takeWord hr

theorem Reading.Placed.takeLines {lines : List (List Char)} {r r' : Reading} (h : r.Placed)
    {number : Nat} (hr : r.takeLines number lines = .ok r') : r'.Placed := by
  induction lines generalizing r number with
  | nil =>
    obtain rfl := Except.ok.inj hr
    exact h
  | cons line lines ih =>
    unfold Reading.takeLines at hr
    cases hl : r.takeLine number line with
    | error e => rw [hl] at hr; cases hr
    | ok r₁ =>
      rw [hl] at hr
      exact ih (h.takeLine hl) hr

theorem Reading.Placed.finish {r : Reading} (h : r.Placed) {capacity : Option Int} {i : Image}
    (hi : (r.finish capacity).result = .ok i) : 0 ≤ i.origin ∧ i.origin ≤ i.words.length := by
  have hle : r.origin.getD 0 ≤ r.words.size := by
    cases ho : r.origin with
    | none => exact Nat.zero_le _
    | some o => exact h o ho
  unfold Reading.finish at hi
  split at hi
  · cases hi
  · obtain rfl := Except.ok.inj hi
    dsimp only
    split <;> simp only [Reading.note, Array.length_toList] <;> omega

/-- The origin of an image is the address of one of its words, or the one behind them. -/
def Placed (i : Image) : Prop := 0 ≤ i.origin ∧ i.origin ≤ i.words.length

theorem placed_of_parse {text : String} {capacity : Option Int} {i : Image}
    (h : (parse text capacity).result = .ok i) : i.Placed := by
  have hs : Reading.start.Placed := nofun
  unfold parse at h
  split at h
  · cases h
  · exact (hs.takeLines (by assumption)).finish h

theorem placed_toImage (p : Program) : p.toImage.Placed := by
  refine ⟨Int.natCast_nonneg _, ?_⟩
  show ((p.symbols.length : Nat) : Int) ≤ ((p.data ++ p.code).length : Nat)
  rw [List.length_append, Program.data, List.length_map, Program.length_symbolsByAddress]
  omega

/-- An image that has been read from a text, or made of a program. -/
def Built (i : Image) : Prop :=
  (∃ text capacity, (parse text capacity).result = .ok i) ∨ ∃ p : Program, i = p.toImage

theorem Built.placed {i : Image} (h : i.Built) : i.Placed := by
  rcases h with ⟨text, capacity, h⟩ | ⟨p, rfl⟩
  · exact placed_of_parse h
  · exact placed_toImage p

end Image

/-! ## Sessions -/

/-- The lines that have been written since the machine last started over. -/
def linesSince (history : List Record) : List String :=
  history.foldl (fun lines r => if r.startsOver then [] else lines ++ r.lines) []

theorem linesSince_concat (history : List Record) (r : Record) :
    linesSince (history ++ [r]) =
      if r.startsOver then [] else linesSince history ++ r.lines :=
  List.foldl_concat ..

namespace Emulator

open Machine Likeness

/-- A sound machine, and an image to reset it to. -/
structure Sound (size : Nat) (e : Emulator) : Prop where
  machine : e.machine.Sound size
  image : ∀ i, e.image = some i → i.Placed
  reloads : e.Reloads

theorem sound_new (size : Nat) (h : IsMemorySize size) (input : List String) (limit : Option Int) :
    (Emulator.new (.zeros size h) input limit).Sound size := by
  refine ⟨?_, nofun, nofun⟩
  have hs := sound_reset (Machine.new (.zeros size h) input) 0 (Memory.ranged_zeros size h)
    (Int.le_refl 0) (Int.natCast_nonneg _)
  exact (Memory.size_zeros size h ▸ hs).of_eq rfl rfl

/-- No call leads out of the ranges. -/
theorem Sound.perform {size : Nat} {e : Emulator} (h : e.Sound size) {c : Call}
    (hc : ∀ i, c = .load i → i.Placed) : (e.perform c).1.Sound size := by
  have hr := h.reloads.perform c
  cases hd : c.drives with
  | true =>
    have ha := drive_exact e hd
    have hs := h.machine.iterate (fun i hi => drive_running e c hi)
    exact ⟨hs.of_eq ha.memory ha.regs, image_of_drives e hd ▸ h.image, hr⟩
  | false =>
    have hs := settled e hd
    revert hr hs
    cases e.perform c with
    | mk e' reply =>
      intro hr hs
      cases hs with
      | kept _ hk => exact ⟨h.machine.of_eq hk.memory hk.regs, h.image, hr⟩
      | @refused _ k i memory _ _ hl hk =>
        obtain ⟨hsize, hranged⟩ := Image.loadOver_clear hl
        have hm := h.machine.setMemory hsize hranged
        exact ⟨hm.of_eq hk.memory hk.regs, h.image, hr⟩
      | @started _ k i memory hi hl hk =>
        have hp : i.Placed := by
          rcases hi with hi | ⟨-, hi⟩ | ⟨text, -, hi⟩
          · exact hc i hi
          · exact h.image i hi
          · exact Image.placed_of_parse hi
        have hsize : memory.size = e.machine.memory.size :=
          (Image.size_of_loadInto hl).trans (Memory.size_clear _)
        have hlen := (Image.loadInto_eq_ok_iff.1 hl).2.1
        rw [Memory.size_clear, ← hsize] at hlen
        have hm := sound_reset { e.machine with memory } i.origin
          (Image.ranged_of_loadInto (Memory.Ranged.clear _) hl) hp.1
          (Int.le_trans hp.2 (Int.ofNat_le.2 hlen))
        have hm : Machine.Sound size _ := hsize.trans h.machine.size_eq ▸ hm
        refine ⟨hm.of_eq hk.memory hk.regs, ?_, hr⟩
        rintro _ ⟨⟩
        exact hp
      | blank =>
        have hm := sound_reset (clearMemory e.machine) 0
          (Memory.Ranged.clear _) (Int.le_refl 0) (Int.natCast_nonneg _)
        have hsize : (clearMemory e.machine).memory.size = size :=
          (Memory.size_clear _).trans h.machine.size_eq
        exact ⟨hsize ▸ hm, h.image, hr⟩
      | fed => exact ⟨h.machine.of_eq rfl rfl, h.image, hr⟩

theorem lines_of_written {r : Record} {ls : List String}
    (h : r.after.machine.written = r.before.machine.written ++ ls) : r.lines = ls := by
  unfold Record.lines
  rw [h, List.drop_left]

/-- A call adds the lines that it writes to the output, unless it makes the machine start over. -/
theorem output_record {e : Emulator} (h : e.Reloads) (c : Call) :
    (e.record c).after.machine.output.toList =
      if (e.record c).startsOver then []
      else e.machine.output.toList ++ (e.record c).lines := by
  have hquiet : ∀ r : Record, r.before = e → r.call ≠ .reset → r.reply ≠ .loaded →
      (∃ ls, r.after.machine.written = e.machine.written ++ ls ∧
        r.after.machine.output.toList = e.machine.output.toList ++ ls) →
      r.after.machine.output.toList =
        if r.startsOver then [] else e.machine.output.toList ++ r.lines := by
    rintro r rfl hc hl ⟨ls, hw, ho⟩
    have hs : ¬ r.startsOver = true := fun hs => (Record.startsOver_iff.1 hs).elim hc hl
    rw [if_neg hs, lines_of_written hw, ho]
  cases hd : c.drives with
  | true =>
    have ha := drive_exact e hd
    refine hquiet _ rfl ?_ (reply_of_drives e hd) ?_
    · rintro rfl
      cases hd
    · obtain ⟨ls, hw, ho⟩ := iterate_lines e.machine (e.attempts c).length
      exact ⟨ls, ha.written.trans hw, (congrArg Array.toList ha.output).trans ho⟩
  | false =>
    have hs := settled e hd
    unfold record
    revert hs
    cases e.perform c with
    | mk e' reply =>
      intro hs
      have hsame : ∀ k : Machine, k.written = e.machine.written → k.output = e.machine.output →
          ∃ ls, k.written = e.machine.written ++ ls ∧
            k.output.toList = e.machine.output.toList ++ ls := by
        intro k hw ho
        exact ⟨[], by rw [hw, List.append_nil], by rw [ho, List.append_nil]⟩
      cases hs with
      | kept hc hk _ hl => exact hquiet _ rfl hc hl (hsame _ hk.written hk.output)
      | refused hc hi hk =>
        refine hquiet _ rfl ?_ nofun (hsame _ (hk.written.trans (written_congr rfl)) hk.output)
        intro hreset
        obtain ⟨memory, hm⟩ := h _ (hc hreset)
        rw [Image.loadInto_eq hi] at hm
        cases hm
      | started _ _ hk =>
        rw [if_pos (Record.startsOver_iff.2 (.inr rfl))]
        exact congrArg Array.toList hk.output
      | blank => rfl
      | fed => exact hquiet _ rfl nofun nofun (hsame _ rfl rfl)

/-- The emulator has been made and asked for something, with no images but such as have been read
    from a text or made of a program. -/
def Reached (size : Nat) (e : Emulator) : Prop :=
  ∃ (h : IsMemorySize size) (input : List String) (limit : Option Int) (calls : List Call),
    (∀ i, Call.load i ∈ calls → i.Built) ∧
      e = (Emulator.new (.zeros size h) input limit).performAll calls

theorem Reached.sound {size : Nat} {e : Emulator} (h : e.Reached size) : e.Sound size := by
  obtain ⟨h, input, limit, calls, hc, rfl⟩ := h
  exact performAll_keeps (sound_new size h input limit)
    (fun e c hmem he => he.perform fun i hi => (hc i (hi ▸ hmem)).placed)

/-- Whatever is asked of an emulator, its machine stays sound, and its output is what has been
    written since it last started over. -/
theorem sound_session (size : Nat) (h : IsMemorySize size) (input : List String) (limit : Option Int)
    (calls : List Call) (hc : ∀ i, Call.load i ∈ calls → i.Built) :
    let start := Emulator.new (.zeros size h) input limit
    (start.performAll calls).machine.Sound size ∧
      (start.performAll calls).machine.output.toList = linesSince (start.history calls) := by
  intro start
  have hreached : (start.performAll calls).Reached size := ⟨h, input, limit, calls, hc, rfl⟩
  refine ⟨hreached.sound.machine, ?_⟩
  clear hreached hc
  induction calls using List.reverseRecOn with
  | nil => rfl
  | append_singleton calls c ih =>
    have hr : (start.performAll calls).Reloads :=
      performAll_keeps (reloads_new _ _ _) (fun e c _ he => he.perform c)
    rw [performAll_append, history_concat, linesSince_concat, ← ih]
    exact output_record hr c

/-- Reads a token and writes it. -/
def echo : Image := ⟨["0000", "1000", "1100", "4300"], 1, .empty⟩

theorem built_echo : echo.Built :=
  .inl ⟨"0000\n// Instructions\n1000\n1100\n4300", none, rfl⟩

theorem reached_echo :
    ((Emulator.new (.zeros 4 (by decide)) ["12"] none).performAll [.load echo]).Reached 4 := by
  refine ⟨by decide, ["12"], none, [.load echo], fun i hi => ?_, rfl⟩
  obtain rfl : i = echo := by simpa using hi
  exact built_echo

/-- A session that loads a program, runs it to its end and is refused a step. -/
theorem sound_session_echo :
    let start := Emulator.new (.zeros 4 (by decide)) ["12"] none
    let calls := [.load echo, .run none 9, .step, .feed ["x"]]
    (start.performAll calls).machine.Sound 4 ∧
      (start.performAll calls).machine.output.toList = ["12"] := by
  have hc : ∀ i, Call.load i ∈ [.load echo, .run none 9, .step, .feed ["x"]] → i.Built := by
    intro i hi
    obtain rfl : i = echo := by simpa using hi
    exact built_echo
  obtain ⟨hs, ho⟩ := sound_session 4 (by decide) ["12"] none _ hc
  exact ⟨hs, ho.trans rfl⟩

end Emulator

end DecimalMachine
