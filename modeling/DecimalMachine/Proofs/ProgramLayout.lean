import DecimalMachine.Proofs.AddressNames
import DecimalMachine.Proofs.Encodings
/-
  Layout: the tables, the instructions and the image of an assembled program, said from the lines of
  its source alone. The variables take the addresses from zero on and the instructions those behind
  them, in the order of their lines; a label is the address of the instruction behind its last
  definition (`LaidOut`). The three scans of the source agree on these addresses because each of them
  is measured against the same functions of the lines.
-/
namespace DecimalMachine

namespace Assembly

open Source

/-- The instruction that a line is assembled to at an address: `HALT` has no operand, and all others
    have the number that their operand stands for. -/
structure Produces (lines : List Line) (l : Line) (address : Nat) (i : Instruction) : Prop where
  line : i.line = l
  address : i.address = address
  word : i.word = 100 * i.opcode.code + i.operand
  operation : ∃ mnemonic operand extra, l.statement = .instruction mnemonic operand extra ∧
    Opcode.ofMnemonic? mnemonic = some i.opcode ∧
    if i.opcode = .halt then i.operand = 0
    else ∃ x res, operand = some x ∧ meaning lines x = .ok (i.operand, res)

/-- A program laid out as its source says. -/
structure LaidOut (lines : List Line) (p : Program) : Prop where
  symbols : p.symbols.map Symbol.name = declared lines
  addresses : ∀ i (h : i < p.symbols.length), p.symbols[i].address = i
  initials : ∀ s ∈ p.symbols, initial? lines s.name = some s.initial
  origin : p.origin = (declared lines).length
  labels : p.labels.map Label.name = defined lines
  targets : ∀ t ∈ p.labels, ∃ before l behind, lines = before ++ l :: behind ∧
    l.defined? = some t.name ∧ (∀ m ∈ behind, m.defined? ≠ some t.name) ∧
    t.address = p.origin + (code before).length
  length : p.instructions.length = (code lines).length
  instructions : ∀ i (h₁ : i < p.instructions.length) (h₂ : i < (code lines).length),
    Produces lines (code lines)[i] (p.origin + i) p.instructions[i]

/-- The image of a program: the first values of the variables, the words of the instructions, and
    the names of the variables at their addresses. -/
structure Pictured (lines : List Line) (p : Program) : Prop where
  length : p.toImage.words.length = (declared lines).length + (code lines).length
  origin : p.toImage.origin = (declared lines).length
  data : p.toImage.data = p.symbols.map fun s => Word.render s.initial
  code : p.toImage.code = p.instructions.map fun i => Word.render i.word
  names : p.toImage.names.entries = (declared lines).zipIdx.map fun (x, i) => ((i : Int), x)

/-! ## Labels and instructions -/

/-- Where all names are different, what is found by its name is the thing itself. -/
theorem find?_of_nodup {α : Type} {f : α → String} {xs : List α} (h : (xs.map f).Nodup) {a : α}
    (ha : a ∈ xs) : xs.find? (f · == f a) = some a := by
  induction xs with
  | nil => cases ha
  | cons x xs ih =>
    obtain ⟨hx, hxs⟩ := List.nodup_cons.1 h
    rcases List.mem_cons.1 ha with rfl | ha
    · simp
    · have hne : (f x == f a) = false := by
        simpa using fun he : f x = f a => hx (he ▸ List.mem_map_of_mem ha)
      rw [List.find?_cons, hne]
      exact ih hxs ha

theorem Compiled.target {lines : List Line} {p : Program} (h : Compiled lines p) {t : Label}
    (ht : t ∈ p.labels) : ∃ before l behind, lines = before ++ l :: behind ∧
      l.defined? = some t.name ∧ (∀ m ∈ behind, m.defined? ≠ some t.name) ∧
      t.address = origin lines + (code before).length := by
  have hfind := find?_of_nodup (h.labels ▸ nodup_defined lines) ht
  have hbound := h.tables.labels t.name
  rw [show p.labels.find? (·.name == t.name) = some t from hfind] at hbound
  obtain ⟨i, hi, hti⟩ := Option.map_eq_some_iff.1 hbound.symm
  obtain ⟨before, l, behind, he, hl, hlast, rfl⟩ := exists_of_target? hi
  exact ⟨before, l, behind, he, hl, hlast, hti.symm⟩

theorem Assembles.produces {lines : List Line} {l : Line} {address : Nat} {i : Instruction}
    (h : Assembles lines l address i) : Produces lines l address i := by
  cases h with
  | @bare mnemonic operand extra op hs hm ht =>
    have hop : op = .halt := by simpa [Opcode.takesOperand] using ht
    refine ⟨rfl, rfl, ?_, mnemonic, operand, extra, hs, hm, ?_⟩
    · exact congrArg (· + 0) (Int.mul_comm ..)
    · exact (if_pos hop).mpr rfl
  | @operand mnemonic x extra op n res hs hm ht hx hr =>
    have hop : op ≠ .halt := by simpa [Opcode.takesOperand] using ht
    refine ⟨rfl, rfl, ?_, mnemonic, some x, extra, hs, hm, ?_⟩
    · exact congrArg (· + (n : Int)) (Int.mul_comm ..)
    · exact (if_neg hop).mpr ⟨x, res, rfl, hx⟩

theorem Compiled.laidOut {lines : List Line} {p : Program} (h : Compiled lines p) :
    LaidOut lines p := by
  have ho : p.origin = origin lines := h.tables.symbols.length
  refine ⟨h.tables.symbols.names, h.tables.symbols.addresses,
    fun s hs => (h.tables.symbols.initials s hs).1, ho, h.labels, fun t ht => ?_, h.length,
    fun i h₁ h₂ => ?_⟩
  · rw [ho]
    exact h.target ht
  · rw [ho]
    exact (h.assembles i h₁ h₂).produces

/-! ## The image -/

theorem data_toImage (p : Program) : p.toImage.data = p.data := by
  have hcut : p.toImage.cut = p.data.length := by
    show (if (p.origin : Int) < 0 then _ else (p.origin : Int)).toNat = _
    rw [if_neg (by omega), Int.toNat_natCast]
    exact ((List.length_map _).trans p.length_symbolsByAddress).symm
  unfold Image.data
  rw [hcut]
  exact List.take_left

theorem code_toImage (p : Program) : p.toImage.code = p.code := by
  have happ := p.toImage.data_append_code
  rw [data_toImage] at happ
  exact List.append_cancel_left happ

theorem Compiled.symbolsByAddress {lines : List Line} {p : Program} (h : Compiled lines p) :
    p.symbolsByAddress = p.symbols := h.tables.symbolsByAddress

theorem Compiled.words_eq {lines : List Line} {p : Program} (h : Compiled lines p) :
    p.toImage.words = (p.symbols.map fun s => Word.render s.initial) ++ p.code := by
  show p.data ++ p.code = _
  rw [Program.data, h.symbolsByAddress]

theorem Compiled.pictured {lines : List Line} {p : Program} (h : Compiled lines p) :
    Pictured lines p := by
  have ho : p.symbols.length = origin lines := h.tables.symbols.length
  refine ⟨?_, congrArg Int.ofNat ho, ?_, code_toImage p, ?_⟩
  · rw [h.words_eq, List.length_append, List.length_map, Program.code, List.length_map, h.length, ho]
    rfl
  · rw [data_toImage, Program.data, h.symbolsByAddress]
  · have hpairs : (p.symbols.map fun s => ((s.address : Int), s.name)) =
        (declared lines).zipIdx.map fun (x, i) => ((i : Int), x) := by
      rw [← h.tables.symbols.names]
      refine List.ext_getElem (by simp) fun i h₁ h₂ => ?_
      have hi : i < p.symbols.length := by simpa using h₁
      have ha : p.symbols[i].address = i := h.tables.symbols.addresses i hi
      simp [ha]
    -- A table is in the order of its addresses, and so are the variables already.
    have hasc : ((declared lines).zipIdx.map fun (x, i) => ((i : Int), x)).Pairwise
        (·.1 < ·.1) := by
      refine List.pairwise_iff_getElem.2 fun i j hi hj hij => ?_
      simpa using hij
    show (AddressNames.ofList _).entries = _
    rw [h.symbolsByAddress, hpairs, AddressNames.entries_ofList hasc]

/-- Whatever is assembled is laid out as the lines of the source say. -/
theorem assemble_laidOut (a : Assembler) (filename source : String) (p : Program)
    (h : (a.assemble filename source).2.outcome = .ok p) :
    ∃ lines, readLines filename source = lines.map .ok ∧ LaidOut lines p ∧ Pictured lines p := by
  obtain ⟨lines, hr, hc, -⟩ := compiled_of_assemble h
  exact ⟨lines, hr, hc.laidOut, hc.pictured⟩

theorem eq_ok_of_toBool {ε α : Type} {x : Except ε α} (h : x.toBool = true) (d : α) :
    x = .ok (x.toOption.getD d) := by
  cases x with
  | error e => cases h
  | ok p => rfl

/-- A variable declared again, a label defined again, jumps forward and back, and a name of nothing. -/
def tangled : String :=
  "x = 5\nLOAD x\nJUMP end\nx 7\nloop:\ny\nloop:\nADD z\nend:\nJUMP loop\nADDI 012\nHALT now"

def tangledProgram : Program :=
  ((Assembler.new false).assemble "tangled" tangled).2.outcome.toOption.getD ⟨[], [], [], [], ""⟩

theorem assemble_laidOut_tangled :
    (∃ lines, readLines "tangled" tangled = lines.map .ok ∧ LaidOut lines tangledProgram ∧
      Pictured lines tangledProgram) ∧
    tangledProgram.toImage.words =
      ["0005", "0000", "2000", "4005", "3000", "4004", "3512", "4300"] := by
  have hok : ((Assembler.new false).assemble "tangled" tangled).2.outcome.toBool = true := by
    decide +kernel
  have hassembled : ((Assembler.new false).assemble "tangled" tangled).2.outcome =
      .ok tangledProgram := eq_ok_of_toBool hok _
  obtain ⟨lines, -, hc, -⟩ := compiled_of_assemble hassembled
  refine ⟨assemble_laidOut _ _ _ _ hassembled, ?_⟩
  rw [hc.words_eq]
  decide +kernel

end Assembly

end DecimalMachine
