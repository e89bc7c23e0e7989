import Mathlib.Data.List.Nodup
import DecimalMachine.Proofs.Effects
import DecimalMachine.Proofs.MemoryGrid
import DecimalMachine.Proofs.Ranges
/-
  The register block of a dump, against the instruction that is carried out next. The block is a title
  and five lines, each a label and a value, and no label is the beginning of another (`labels_apart`),
  so that what it shows under a label is read off one line (`shows_iff`). Under the labels of the
  instruction it shows the word, and code and operand of its magnitude (`announces_iff`); the cycle
  takes the halves with the sign of the word (`cycle_fetched`). The two are the same if the word is not
  negative. A negative word may show the code of an operation, and none is carried out
  (`announces_magnitudes`).
-/
namespace DecimalMachine

namespace Text

/-- Blanks in front of a text do not matter for what is read from it. -/
theorem readNumeral_append_blanks {a : List Char} (ha : ∀ c ∈ a, isBlank c = true)
    (s : List Char) : readNumeral (a ++ s) = readNumeral s := by
  have htrim : trim (a ++ s) = trim s := by
    have h := trim_append_blanks (b := []) s ha nofun
    rwa [List.append_nil] at h
  unfold readNumeral
  rw [htrim]

theorem padded_natCast (width n : Nat) : padded width (n : Int) = zeroPad width n := by
  unfold padded
  rw [if_neg (Int.not_lt.2 (Int.natCast_nonneg n)), Int.natAbs_natCast]

end Text

namespace Word

open Text

theorem readNumeral_padded_of_inRange {n : Int} (h : inRange n = true) {width : Nat}
    (hw : width ≤ digits) : readNumeral (padded width n) = .ok (some n) :=
  readNumeral_padded (Nat.le_trans (length_zeroPad_of_inRange h hw) (by decide))

/-! ## Halves and magnitudes -/

theorem natAbs_split (w : Int) :
    (split w).1.natAbs = w.natAbs / 100 ∧ (split w).2.natAbs = w.natAbs % 100 :=
  ⟨Int.natAbs_tdiv w 100, Int.natAbs_tmod w 100⟩

/-- The halves of a number that is not negative are those of its magnitude, and of no other number
    are they. -/
theorem split_nonneg_iff {w : Int} : 0 ≤ (split w).1 ∧ 0 ≤ (split w).2 ↔ 0 ≤ w := by
  constructor
  · rintro ⟨hcode, hoperand⟩
    have hjoin := join_split w
    unfold join at hjoin
    omega
  · intro hw
    exact ⟨Int.tdiv_nonneg hw (by decide), Int.tmod_nonneg 100 hw⟩

/-- Only a number that is not negative has the code of an operation. -/
theorem ofCode?_split_eq_some_iff {w : Int} {op : Opcode} :
    Opcode.ofCode? (split w).1 = some op ↔ 0 ≤ w ∧ op.code = (split w).1.natAbs := by
  constructor
  · intro hop
    have hcode := Opcode.code_of_ofCode? hop
    have hpos : 0 < (split w).1 := hcode ▸ op.code_pos
    refine ⟨split_nonneg_iff.1 ⟨Int.le_of_lt hpos, split_operand_nonneg hpos⟩, ?_⟩
    rw [hcode, Int.natAbs_of_nonneg (Int.le_of_lt hpos)]
  · rintro ⟨hw, hop⟩
    rw [Int.natAbs_of_nonneg (split_nonneg_iff.2 hw).1] at hop
    rw [← hop, Opcode.ofCode?_code]

theorem ofCode?_split_of_neg {w : Int} (hw : w < 0) : Opcode.ofCode? (split w).1 = none :=
  Option.eq_none_iff_forall_ne_some.2 fun _ hop =>
    Int.not_le.2 hw (ofCode?_split_eq_some_iff.1 hop).1

end Word

namespace Machine

/-! ## The registers of the instruction at work -/

variable {m : Machine} {op : Opcode} {n : Int} {r : Attempt}

/-- No instruction writes the registers that its own word is in. -/
structure KeepsWord (m k : Machine) : Prop where
  instruction : k.regs.instruction = m.regs.instruction
  opcode : k.regs.opcode = m.regs.opcode
  operand : k.regs.operand = m.regs.operand

theorem KeepsWord.of_regs {k : Machine} (h : k.regs = m.regs) : KeepsWord m k :=
  ⟨h ▸ rfl, h ▸ rfl, h ▸ rfl⟩

theorem Carried.keepsWord (h : Carried m op n r) : KeepsWord m r.machine := by
  cases h with
  | refused => exact .of_regs (fail_regs _ _)
  | refusedToken _ hk => exact .of_regs ((fail_regs _ _).trans (taken_regs hk))
  | @tookToken k _ _ _ hk =>
    have hregs : k.regs = m.regs := taken_regs hk
    exact .of_regs hregs
  | _ => exact ⟨rfl, rfl, rfl⟩

theorem Dispatched.keepsWord (h : Dispatched m r) : KeepsWord m r.machine := by
  cases h with
  | unknown => exact ⟨rfl, rfl, rfl⟩
  | unwritten => exact .of_regs (fail_regs _ _)
  | known _ hc => exact hc.keepsWord

theorem KeepsWord.advance {k : Machine} (h : KeepsWord m k) : KeepsWord m k.advance := by
  have hregs := advance_regs k
  constructor <;> rw [hregs] <;> split
  · exact h.instruction
  · exact h.instruction
  · exact h.opcode
  · exact h.opcode
  · exact h.operand
  · exact h.operand

/-- Behind every cycle, completed or failed, the registers hold the word and its halves. -/
theorem cycle_fetched {w : Int} (hw : m.memory.read? m.regs.pc = some (.num w)) :
    m.cycle.machine.regs.instruction = w ∧
      (m.cycle.machine.regs.opcode, m.cycle.machine.regs.operand) = Word.split w := by
  have hkeeps : KeepsWord (m.fetch w) m.cycle.machine := by
    have hword := (dispatched (m.fetch w)).keepsWord
    rw [cycle_of_num hw]
    split
    · exact hword.advance
    · exact hword
  exact ⟨hkeeps.instruction, Prod.ext hkeeps.opcode hkeeps.operand⟩

/-- The operation of the word at the program counter is the one that is carried out. -/
theorem dispatch_of_operation? {w : Int} (hw : m.memory.read? m.regs.pc = some (.num w))
    (hop : m.operation? = some op) :
    (m.fetch w).dispatch = (m.fetch w).execute op (Word.split w).2 := by
  rw [operation?_of_num hw] at hop
  have hcode : Opcode.ofCode? (m.fetch w).regs.opcode = some op := hop
  unfold dispatch
  rw [hcode]
  rfl

/-- A word with the code of no operation draws a warning, and the machine moves on. -/
theorem cycle_of_unknown {w : Int} (hw : m.memory.read? m.regs.pc = some (.num w))
    (hr : Word.inRange w = true) (hop : Opcode.ofCode? (Word.split w).1 = none) :
    m.cycle = ((m.fetch w).warn s!"Unknown opcode: {(Word.split w).1}").advance.done := by
  have hdispatch : (m.fetch w).dispatch =
      ((m.fetch w).warn s!"Unknown opcode: {(Word.split w).1}").done := by
    have hcode : Opcode.ofCode? (m.fetch w).regs.opcode = none := hop
    have hwrite := Word.writeNumeral_of_inRange (Word.inRange_opcode hr)
    unfold dispatch
    rw [hcode, show (m.fetch w).regs.opcode = (Word.split w).1 from rfl, hwrite]
  rw [cycle_of_num hw, hdispatch]
  rfl

end Machine

namespace Dump

open Text (OneLine)

/-! ## The lines of the block -/

/-- Label, gap and value of each line below the title. -/
def fields (m : Machine) : List (String × Nat × String) :=
  let (word, code, operand) := instructionTexts (m.memory.read? m.regs.pc)
  [("accumulator:", 11, m.accumulatorText),
    ("programCounter:", 11, twoDigits m.regs.pc),
    ("instructionRegister:", 3, String.ofList (Text.padLeft 5 word.toList)),
    ("operationCode:", 12, code),
    ("operand:", 18, operand)]

def labels : List String :=
  ["accumulator:", "programCounter:", "instructionRegister:", "operationCode:", "operand:"]

theorem registerLines_eq (m : Machine) :
    registerLines m = "REGISTERS:" :: (fields m).map fun f => labelled f.1 f.2.1 f.2.2 := rfl

theorem map_fst_fields (m : Machine) : (fields m).map Prod.fst = labels := rfl

/-- No label is the beginning of another, or of the title. -/
theorem labels_apart : ∀ a ∈ labels, (∀ b ∈ labels, a.toList <+: b.toList → a = b) ∧
    ¬ a.toList <+: "REGISTERS:".toList := by decide

theorem toList_labelled (label : String) (gap : Nat) (value : String) :
    (labelled label gap value).toList = label.toList ++ (Text.blanks gap ++ value.toList) := by
  unfold labelled
  rw [String.toList_append, String.toList_append, String.toList_ofList, List.append_assoc]

/-- Values without line breaks make lines, and the block is read back line by line. -/
theorem lines_registers {m : Machine} (h : ∀ f ∈ fields m, OneLine f.2.2.toList) :
    Text.lines (registers m).toList = (registerLines m).map String.toList := by
  have hlabels : ∀ a ∈ labels, a.toList ≠ [] ∧ OneLine a.toList := by decide
  have hline : ∀ l ∈ registerLines m, l.toList ≠ [] ∧ OneLine l.toList := by
    intro l hl
    rw [registerLines_eq] at hl
    rcases List.mem_cons.1 hl with rfl | hl
    · decide
    · obtain ⟨f, hf, rfl⟩ := List.mem_map.1 hl
      obtain ⟨hne, hone⟩ := hlabels f.1 (map_fst_fields m ▸ List.mem_map_of_mem hf)
      rw [toList_labelled]
      exact ⟨List.append_ne_nil_of_left_ne_nil hne _,
        hone.append ((Text.oneLine_blanks _).append (h f hf))⟩
  exact Text.lines_intercalate_filled hline

/-! ## What the block shows -/

/-- A line of the block has the label, and the rest of it is read as the number. -/
def Shows (m : Machine) (label : String) (n : Int) : Prop :=
  ∃ line ∈ Text.lines (registers m).toList, ∃ value, line = label.toList ++ value ∧
    Text.readNumeral value = .ok (some n)

/-- The block shows the word that is about to be carried out, and its code and its operand. -/
structure Announces (m : Machine) (word code operand : Int) : Prop where
  word : Shows m "instructionRegister:" word
  code : Shows m "operationCode:" code
  operand : Shows m "operand:" operand

/-- Under a label the value of its field is shown, and nothing else. -/
theorem shows_iff {m : Machine} (h : ∀ f ∈ fields m, OneLine f.2.2.toList)
    {f : String × Nat × String} (hf : f ∈ fields m) {n : Int} :
    Shows m f.1 n ↔ Text.readNumeral f.2.2.toList = .ok (some n) := by
  have hlabel : ∀ g ∈ fields m, g.1 ∈ labels := fun g hg =>
    map_fst_fields m ▸ List.mem_map_of_mem hg
  have hgap : ∀ c ∈ Text.blanks f.2.1, Text.isBlank c = true := fun _ => Text.blank_of_mem_blanks
  unfold Shows
  rw [lines_registers h]
  constructor
  · rintro ⟨line, hline, value, hcut, hread⟩
    obtain ⟨l, hl, rfl⟩ := List.mem_map.1 hline
    rw [registerLines_eq] at hl
    obtain ⟨hapart, htitle⟩ := labels_apart f.1 (hlabel f hf)
    rcases List.mem_cons.1 hl with rfl | hl
    · exact absurd ⟨value, hcut.symm⟩ htitle
    · obtain ⟨g, hg, rfl⟩ := List.mem_map.1 hl
      rw [toList_labelled] at hcut
      -- Two labels that begin one line begin each other, so the line is that of the field.
      have hsame : f.1 = g.1 :=
        (List.prefix_or_prefix_of_prefix ⟨value, hcut.symm⟩ ⟨_, rfl⟩).elim
          (hapart g.1 (hlabel g hg))
          fun hp => ((labels_apart g.1 (hlabel g hg)).1 f.1 (hlabel f hf) hp).symm
      have hnodup : ((fields m).map Prod.fst).Nodup := by
        rw [map_fst_fields]
        decide
      obtain rfl := List.inj_on_of_nodup_map hnodup hf hg hsame
      rw [← List.append_cancel_left hcut, Text.readNumeral_append_blanks hgap] at hread
      exact hread
  · intro hread
    refine ⟨(labelled f.1 f.2.1 f.2.2).toList, List.mem_map_of_mem ?_, _, toList_labelled _ _ _, ?_⟩
    · rw [registerLines_eq]
      exact List.mem_cons_of_mem _ (List.mem_map_of_mem hf)
    · rw [Text.readNumeral_append_blanks hgap]
      exact hread

theorem fields_of_num {m : Machine} {w : Int} (hw : m.memory.read? m.regs.pc = some (.num w)) :
    fields m = [("accumulator:", 11, m.accumulatorText),
      ("programCounter:", 11, twoDigits m.regs.pc),
      ("instructionRegister:", 3, String.ofList (Text.padLeft 5 (Word.render w).toList)),
      ("operationCode:", 12, String.ofList (Text.zeroPad 2 (w.natAbs / 100))),
      ("operand:", 18, String.ofList (Text.zeroPad 2 (w.natAbs % 100)))] := by
  unfold fields
  rw [hw]
  rfl

theorem oneLine_fields_of_num {m : Machine} {w : Int}
    (hw : m.memory.read? m.regs.pc = some (.num w)) :
    ∀ f ∈ fields m, OneLine f.2.2.toList := by
  rw [fields_of_num hw]
  simp only [List.forall_mem_cons, String.toList_ofList]
  refine ⟨?_, ?_, ?_, ?_, ?_, nofun⟩
  · unfold Machine.accumulatorText
    rw [String.toList_ofList]
    exact Text.oneLine_of_not_blank fun _ => Text.not_blank_of_mem_signed
  · unfold twoDigits
    rw [String.toList_ofList]
    exact Text.oneLine_zeroPadInt 2 _
  · rw [Word.toList_render]
    exact OneLine.padLeft (Text.oneLine_of_not_blank fun _ => Text.not_blank_of_mem_padded) 5
  · exact Text.oneLine_of_not_blank fun _ => Text.not_blank_of_mem_zeroPad
  · exact Text.oneLine_of_not_blank fun _ => Text.not_blank_of_mem_zeroPad

/-! ## The instruction that is shown -/

variable {m : Machine} {w : Int}

theorem shows_field_iff (hw : m.memory.read? m.regs.pc = some (.num w))
    {f : String × Nat × String} (hf : f ∈ fields m) {k n : Int}
    (hk : Text.readNumeral f.2.2.toList = .ok (some k)) : Shows m f.1 n ↔ n = k := by
  rw [shows_iff (oneLine_fields_of_num hw) hf, hk, Except.ok.injEq, Option.some.injEq]
  exact eq_comm

theorem shows_word_iff (hw : m.memory.read? m.regs.pc = some (.num w))
    (hr : Word.inRange w = true) {n : Int} : Shows m "instructionRegister:" n ↔ n = w := by
  have hf : ("instructionRegister:", 3,
      String.ofList (Text.padLeft 5 (Word.render w).toList)) ∈ fields m := by
    rw [fields_of_num hw]
    simp
  refine shows_field_iff hw hf ?_
  rw [String.toList_ofList, Word.toList_render]
  exact (Text.readNumeral_append_blanks (fun _ => Text.blank_of_mem_blanks) _).trans
    (Word.readNumeral_padded_of_inRange hr (Nat.le_refl _))

theorem readNumeral_twoDigits {k : Nat} (hk : k ≤ 99) :
    Text.readNumeral (String.ofList (Text.zeroPad 2 k)).toList = .ok (some (k : Int)) := by
  rw [String.toList_ofList, ← Text.padded_natCast]
  exact Word.readNumeral_padded_of_inRange (Word.inRange_iff.2 ⟨by omega, by omega⟩) (by decide)

theorem shows_code_iff (hw : m.memory.read? m.regs.pc = some (.num w))
    (hr : Word.inRange w = true) {n : Int} :
    Shows m "operationCode:" n ↔ n = (w.natAbs / 100 : Nat) := by
  have hf : ("operationCode:", 12, String.ofList (Text.zeroPad 2 (w.natAbs / 100))) ∈ fields m := by
    rw [fields_of_num hw]
    simp
  have hle := Word.natAbs_le_of_inRange hr
  exact shows_field_iff hw hf (readNumeral_twoDigits (by omega))

theorem shows_operand_iff (hw : m.memory.read? m.regs.pc = some (.num w)) {n : Int} :
    Shows m "operand:" n ↔ n = (w.natAbs % 100 : Nat) := by
  have hf : ("operand:", 18, String.ofList (Text.zeroPad 2 (w.natAbs % 100))) ∈ fields m := by
    rw [fields_of_num hw]
    simp
  exact shows_field_iff hw hf (readNumeral_twoDigits (by omega))

theorem announces_iff (hw : m.memory.read? m.regs.pc = some (.num w))
    (hr : Word.inRange w = true) {word code operand : Int} :
    Announces m word code operand ↔
      word = w ∧ code = (w.natAbs / 100 : Nat) ∧ operand = (w.natAbs % 100 : Nat) := by
  rw [← shows_word_iff hw hr, ← shows_code_iff hw hr, ← shows_operand_iff hw]
  exact ⟨fun h => ⟨h.word, h.code, h.operand⟩, fun ⟨h, h', h''⟩ => ⟨h, h', h''⟩⟩

/-- Under the labels of the instruction the block shows the word that the next cycle takes, and the
    magnitudes of the code and of the operand that it takes. So it shows what the registers will hold
    exactly if the word is not negative. The operation that is carried out is the one whose code is
    shown, unless the word is negative; then the machine warns of the code and moves on, whatever code
    is shown. -/
theorem announces_magnitudes (hw : m.memory.read? m.regs.pc = some (.num w))
    (hr : Word.inRange w = true) :
    let regs := m.cycle.machine.regs
    (∀ word code operand, Announces m word code operand ↔
      word = regs.instruction ∧ code = regs.opcode.natAbs ∧ operand = regs.operand.natAbs) ∧
    (Announces m regs.instruction regs.opcode regs.operand ↔ 0 ≤ w) ∧
    (∀ op : Opcode, m.operation? = some op ↔ 0 ≤ w ∧ Shows m "operationCode:" op.code) ∧
    (∀ op : Opcode, m.operation? = some op →
      (m.fetch w).dispatch = (m.fetch w).execute op regs.operand) ∧
    (w < 0 → m.cycle =
      ((m.fetch w).warn s!"Unknown opcode: {regs.opcode}").advance.done) := by
  intro regs
  obtain ⟨hword, hsplit⟩ := m.cycle_fetched hw
  obtain ⟨hcode, hoperand⟩ : regs.opcode = (Word.split w).1 ∧ regs.operand = (Word.split w).2 :=
    Prod.mk.inj hsplit
  obtain ⟨hcodeAbs, hoperandAbs⟩ := Word.natAbs_split w
  have hshown : ∀ word code operand, Announces m word code operand ↔
      word = regs.instruction ∧ code = regs.opcode.natAbs ∧ operand = regs.operand.natAbs := by
    intro word code operand
    rw [announces_iff hw hr, hword, hcode, hoperand, hcodeAbs, hoperandAbs]
  refine ⟨hshown, ?_, fun op => ?_, fun op hop => ?_, fun hneg => ?_⟩
  · rw [hshown, ← Word.split_nonneg_iff, ← hcode, ← hoperand]
    omega
  · rw [Machine.operation?_of_num hw, shows_code_iff hw hr, ← hcodeAbs]
    exact Word.ofCode?_split_eq_some_iff
  · rw [hoperand]
    exact Machine.dispatch_of_operation? hw hop
  · rw [hcode]
    exact Machine.cycle_of_unknown hw hr (Word.ofCode?_split_of_neg hneg)

/-- A negative word with the code and the operand of a jump. -/
theorem announces_magnitudes_jump :
    let m := Machine.new ⟨#[.num (-4201), .num 4300], by decide⟩ []
    m.memory.read? m.regs.pc = some (.num (-4201)) ∧ Word.inRange (-4201) = true ∧
      (∀ word code operand, Announces m word code operand ↔
        word = -4201 ∧ code = 42 ∧ operand = 1) ∧
      m.cycle.machine.regs.opcode = -42 ∧ m.cycle.machine.regs.operand = -1 ∧
      m.cycle = ((m.fetch (-4201)).warn s!"Unknown opcode: {(-42 : Int)}").advance.done := by
  intro m
  have hw : m.memory.read? m.regs.pc = some (.num (-4201)) := by decide
  have hword : m.cycle.machine.regs.instruction = -4201 := by decide +kernel
  have hcode : m.cycle.machine.regs.opcode = -42 := by decide +kernel
  have hoperand : m.cycle.machine.regs.operand = -1 := by decide +kernel
  obtain ⟨hshown, -, -, -, hneg⟩ := announces_magnitudes hw rfl
  rw [hword, hcode, hoperand] at hshown
  rw [hcode] at hneg
  exact ⟨hw, rfl, hshown, hcode, hoperand, hneg (by decide)⟩

/-- The code of halting is shown where nothing halts: the word is negative. -/
theorem announces_halt_unexecuted :
    let m := Machine.new ⟨#[.num (-4300), .num 4300], by decide⟩ []
    m.memory.read? m.regs.pc = some (.num (-4300)) ∧ Word.inRange (-4300) = true ∧
      Announces m (-4300) Opcode.halt.code 0 ∧
      m.cycle.machine.regs.opcode = -43 ∧ m.operation? = none ∧
      m.cycle.machine.state = .running ∧
      ¬ Announces m m.cycle.machine.regs.instruction m.cycle.machine.regs.opcode
        m.cycle.machine.regs.operand := by
  intro m
  have hw : m.memory.read? m.regs.pc = some (.num (-4300)) := by decide
  have hcode : m.cycle.machine.regs.opcode = -43 := by decide +kernel
  refine ⟨hw, rfl, (announces_iff hw rfl).2 ⟨rfl, rfl, rfl⟩, hcode, by decide, by decide +kernel,
    fun h => ?_⟩
  have hshown := ((announces_iff hw rfl).1 h).2.1
  rw [hcode] at hshown
  exact absurd hshown (by decide)

end Dump

end DecimalMachine
