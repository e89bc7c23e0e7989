import DecimalMachine.Proofs.Numerals
import DecimalMachine.Proofs.Ranges
import DecimalMachine.Proofs.Encodings
/-
  Placement: where a program lies in memory, and why its code stays there. Loading puts the first
  values of the variables at the addresses from zero, the instructions behind them, and zeros in
  all other cells (`read?_placed`). If operands that address a cell are variables and operands of
  jumps are labels, whatever can be carried out from the origin on stores below the origin and
  jumps to it or behind it (`parted_placed`); so the program counter never leaves that part of
  memory, and nothing in it changes (`Confined.next`).
-/
namespace DecimalMachine

namespace Word

theorem split_join {code operand : Int} (hc : 0 ≤ code) (h0 : 0 ≤ operand) (h1 : operand ≤ 99) :
    split (join code operand) = (code, operand) := by
  have hw : 0 ≤ join code operand := by
    unfold join
    omega
  unfold split
  rw [Int.tdiv_eq_ediv_of_nonneg hw, Int.tmod_eq_emod_of_nonneg hw]
  unfold join
  rw [Prod.mk.injEq]
  constructor <;> omega

theorem inRange_join (op : Opcode) {operand : Int} (h0 : 0 ≤ operand) (h1 : operand ≤ 99) :
    inRange (join op.code operand) = true := by
  have hp := op.code_pos
  have hl := op.code_le
  refine inRange_iff.2 ?_
  unfold join
  constructor <;> omega

end Word

/-- The word of an operation with an operand of two digits is carried out as that operation. -/
theorem Machine.dispatch_join (m : Machine) (op : Opcode) {n : Int} (h0 : 0 ≤ n) (h1 : n ≤ 99) :
    (m.fetch (Word.join op.code n)).dispatch =
      (m.fetch (Word.join op.code n)).execute op n := by
  have hp := op.code_pos
  have hw : Word.split (Word.join op.code n) = (op.code, n) := Word.split_join (by omega) h0 h1
  unfold dispatch
  simp only [fetch, hw, Opcode.ofCode?_code]

namespace Image

theorem readAs_render {ns : List Int} (h : ∀ n ∈ ns, Word.inRange n = true) :
    ReadAs (ns.map Word.render) (ns.map Cell.num) := by
  induction ns with
  | nil => exact .nil
  | cons n ns ih =>
    have hn := Word.parse_render_of_inRange (h n List.mem_cons_self)
    exact .cons (ofText_of_parse hn) (ih fun k hk => h k (List.mem_cons_of_mem n hk))

end Image

/-! ## Programs in memory -/

namespace Program

/-- The words of a program as numbers. -/
def numbers (p : Program) : List Int :=
  p.symbolsByAddress.map Symbol.initial ++ p.instructions.map Instruction.word

theorem words_toImage (p : Program) : p.toImage.words = p.numbers.map Word.render := by
  show p.data ++ p.code = _
  unfold data code numbers
  rw [List.map_append, List.map_map, List.map_map]
  rfl

theorem length_numbers (p : Program) : p.numbers.length = p.size := by
  unfold numbers size origin
  rw [List.length_append, List.length_map, List.length_map, length_symbolsByAddress]

/-- Memory with a program in it, and zeros behind the program. -/
def placed (p : Program) (M : Memory) : Memory := M.clear.setAll 0 (p.numbers.map Cell.num)

theorem size_placed (p : Program) (M : Memory) : (p.placed M).size = M.size := by
  unfold placed
  rw [Memory.size_setAll, Memory.size_clear]

theorem read?_placed {p : Program} {M : Memory} (h : p.size ≤ M.size) (a : Nat) :
    (p.placed M).read? (a : Int) =
      if a < M.size then some (.num (p.numbers[a]?.getD 0)) else none := by
  have hlen : (p.numbers.map Cell.num).length = p.size := by
    rw [List.length_map, length_numbers]
  unfold placed
  rw [Memory.read?_setAll (by rw [Memory.size_clear]; omega), Memory.read?_clear]
  by_cases ha : a < p.size
  · rw [if_pos (by omega), if_pos (by omega), Nat.sub_zero, List.getElem?_map]
    rw [List.getElem?_eq_getElem (by rw [length_numbers]; exact ha)]
    rfl
  · rw [if_neg (by omega), List.getElem?_eq_none (by rw [length_numbers]; omega)]
    rfl

theorem read?_placed_symbol {p : Program} {M : Memory} (h : p.size ≤ M.size)
    (hsorted : p.symbolsByAddress = p.symbols) {i : Nat} (hi : i < p.symbols.length) :
    (p.placed M).read? (i : Int) = some (.num p.symbols[i].initial) := by
  have hnum : p.numbers[i]? = some p.symbols[i].initial := by
    unfold numbers
    rw [hsorted, List.getElem?_append_left (by simpa using hi), List.getElem?_map,
      List.getElem?_eq_getElem hi]
    rfl
  have hsize : i < p.size := Nat.lt_add_right _ hi
  rw [read?_placed h, if_pos (by omega), hnum]
  rfl

theorem numbers_origin_add (p : Program) (i : Nat) :
    p.numbers[p.origin + i]? = p.instructions[i]?.map Instruction.word := by
  unfold numbers origin
  rw [List.getElem?_append_right (by simp [length_symbolsByAddress]), List.length_map,
    length_symbolsByAddress, Nat.add_sub_cancel_left, List.getElem?_map]

theorem read?_placed_instruction {p : Program} {M : Memory} (h : p.size ≤ M.size) {i : Nat}
    (hi : i < p.instructions.length) :
    (p.placed M).read? ((p.origin + i : Nat) : Int) = some (.num p.instructions[i].word) := by
  have hsize : p.origin + i < p.size := Nat.add_lt_add_left hi _
  rw [read?_placed h, if_pos (by omega), numbers_origin_add, List.getElem?_eq_getElem hi]
  rfl

/-- A program whose words are in range loads wherever there is room for it. -/
theorem loadInto_placed {p : Program} {M : Memory} (h : ∀ n ∈ p.numbers, Word.inRange n = true)
    (hsize : p.size ≤ M.size) : p.toImage.loadInto M.clear = .ok (p.placed M) := by
  refine Image.loadInto_eq_ok_iff.2 ⟨?_, ?_, p.numbers.map Cell.num, ?_, ?_, rfl⟩
  · have horigin : p.origin ≤ M.size := Nat.le_trans (Nat.le_add_right _ _) hsize
    show Text.IsWritable (p.origin : Int)
    exact M.isWritable_of_le_size (by omega) (Int.ofNat_le.2 horigin)
  · rw [words_toImage, List.length_map, length_numbers, Memory.size_clear]
    exact hsize
  · rw [words_toImage]
    exact Image.readAs_render h
  · intro v hv
    obtain ⟨n, hn, he⟩ := List.mem_map.1 hv
    obtain rfl := Cell.num.inj he
    exact h n hn

/-- Operands that address a cell are variables, and operands of jumps are labels. -/
structure Symbolic (p : Program) : Prop where
  cells : ∀ i ∈ p.instructions, i.opcode.addressesCell = true → i.resolution = some .variable
  jumps : ∀ i ∈ p.instructions, i.opcode.isJump = true → i.resolution = some .label

end Program

namespace Assembly

open Program

variable {lines : List Line} {p : Program}

theorem Encodes.word_eq {l : Line} {address : Nat} {i : Instruction}
    (h : Encodes lines l address i) : i.word = Word.join i.opcode.code i.operand ∧
      i.operand ≤ 99 := by
  cases h with
  | bare => exact ⟨rfl, Nat.zero_le 99⟩
  | operand _ _ _ _ hn => exact ⟨rfl, hn⟩

theorem Makes.origin_eq (h : Makes lines p) : p.origin = Source.origin lines :=
  h.tables.symbols.length

theorem Makes.word_eq (h : Makes lines p) {i : Instruction} (hi : i ∈ p.instructions) :
    i.word = Word.join i.opcode.code i.operand ∧ i.operand ≤ 99 := by
  obtain ⟨k, hk, rfl⟩ := List.mem_iff_getElem.1 hi
  exact (h.encodes k hk (h.length ▸ hk)).word_eq

theorem Makes.inRange (h : Makes lines p) {n : Int} (hn : n ∈ p.numbers) :
    Word.inRange n = true := by
  rcases List.mem_append.1 hn with hn | hn
  · obtain ⟨s, hs, rfl⟩ := List.mem_map.1 hn
    exact (h.tables.symbols.initials s (mem_symbolsByAddress.1 hs)).2
  · obtain ⟨i, hi, rfl⟩ := List.mem_map.1 hn
    obtain ⟨hw, hle⟩ := h.word_eq hi
    rw [hw]
    exact Word.inRange_join _ (Int.natCast_nonneg _) (by omega)

theorem Makes.loadInto (h : Makes lines p) {M : Memory} (hsize : p.size ≤ M.size) :
    p.toImage.loadInto M.clear = .ok (p.placed M) :=
  loadInto_placed (fun _ => h.inRange) hsize

/-- An operand of a program that assembles without warnings, and what the source calls it. -/
theorem Makes.means (h : Makes lines p) {i : Instruction} (hi : i ∈ p.instructions)
    {res : Resolution} (hr : i.resolution = some res) :
    ∃ x, Source.Means lines x i.operand res := by
  obtain ⟨k, hk, rfl⟩ := List.mem_iff_getElem.1 hi
  have he := h.encodes k hk (h.length ▸ hk)
  revert he hr
  generalize p.instructions[k] = i
  intro hr he
  cases he with
  | bare => cases hr
  | operand _ _ _ hx =>
    obtain rfl := Option.some.inj hr
    exact ⟨_, hx⟩

end Assembly

/-! ## Code that stays as it is -/

/-- The words from an address on that can be carried out keep to their side of it: they store
    below it, and jump to it or behind it. -/
def Memory.Parted (M : Memory) (origin : Int) : Prop :=
  ∀ a w op, origin ≤ a → M.read? a = some (.num w) → Opcode.ofCode? (Word.split w).1 = some op →
    (op.addressesCell = true → (Word.split w).2 < origin) ∧
      (op.isJump = true → origin ≤ (Word.split w).2)

open Assembly Program in
theorem parted_placed {lines : List Line} {p : Program} (h : Makes lines p) (hs : p.Symbolic)
    {M : Memory} (hsize : p.size ≤ M.size) : (p.placed M).Parted p.origin := by
  intro a w op ha hw hop
  obtain ⟨i, rfl⟩ : ∃ i : Nat, a = ((p.origin + i : Nat) : Int) :=
    ⟨(a - p.origin).toNat, by omega⟩
  rw [read?_placed hsize, numbers_origin_add] at hw
  split at hw
  · cases hi : p.instructions[i]? with
    | none =>
      -- A zero behind the program is no operation.
      rw [hi] at hw
      cases hw
      cases hop
    | some instr =>
      rw [hi] at hw
      cases hw
      have hmem := List.mem_of_getElem? hi
      obtain ⟨hw, hle⟩ := h.word_eq hmem
      have hp := instr.opcode.code_pos
      rw [Option.map_some, Option.getD_some, hw,
        Word.split_join (by omega) (Int.natCast_nonneg _) (by omega)] at hop ⊢
      rw [Opcode.ofCode?_code] at hop
      obtain rfl := Option.some.inj hop
      constructor
      · intro hcell
        obtain ⟨x, hx⟩ := h.means hmem (hs.cells instr hmem hcell)
        obtain ⟨hv, hn⟩ := Source.mem_of_means hx
        have hlt : (Source.declared lines).idxOf x < Source.origin lines :=
          List.idxOf_lt_length_of_mem hv
        rw [h.origin_eq, hn]
        omega
      · intro hjump
        obtain ⟨x, hx⟩ := h.means hmem (hs.jumps instr hmem hjump)
        obtain ⟨k, -, hn⟩ := Source.target?_of_means hx
        rw [h.origin_eq, hn]
        omega
  · cases hw

namespace Machine

/-- The program counter is not below `origin`, and memory is as in `base` from there on. -/
structure Confined (base : Memory) (origin : Int) (m : Machine) : Prop where
  pc : origin ≤ m.regs.pc
  cells : ∀ a, origin ≤ a → m.memory.read? a = base.read? a

variable {base : Memory} {origin : Int} {m : Machine}

/-- An instruction that stores below the origin keeps memory from there on. -/
theorem Dispatched.read?_eq {r : Attempt} (h : Dispatched m r) {a : Int} (ha : origin ≤ a)
    (hm : ∀ op, Opcode.ofCode? m.regs.opcode = some op → op.addressesCell = true →
      m.regs.operand < origin) : r.machine.memory.read? a = m.memory.read? a := by
  cases h with
  | unknown text => rfl
  | unwritten => rw [fail_memory]
  | @known op _ hop hc =>
    by_cases hcell : op.addressesCell = true
    · have hlt := hm op hop hcell
      exact hc.cells (by omega)
    · have hread : op ≠ .read := by
        rintro rfl
        exact hcell rfl
      have hstore : op ≠ .store := by
        rintro rfl
        exact hcell rfl
      rw [hc.memory hread hstore]

/-- No cycle leads below the origin or changes anything from there on. -/
theorem Confined.next (h : Confined base origin m) (hb : base.Parted origin)
    (hrun : m.isRunning = true) : Confined base origin m.next := by
  refine cycle_keeps (P := Confined base origin) (fun e => ?_) (fun w hw r hr => ?_)
  · exact ⟨by rw [fail_regs]; exact h.pc, by rw [fail_memory]; exact h.cells⟩
  · have hpc : origin ≤ m.regs.pc := h.pc
    have hparted := fun op => hb m.regs.pc w op hpc ((h.cells _ hpc).symm.trans hw)
    have hcells : ∀ a, origin ≤ a → r.machine.memory.read? a = base.read? a := by
      intro a ha
      exact (hr.read?_eq ha fun op hop => (hparted op hop).1).trans (h.cells a ha)
    constructor
    · intro _
      refine ⟨?_, fun a ha => by rw [advance_memory]; exact hcells a ha⟩
      rcases hr.aimed.advance hrun with hp | hp | ⟨hp, op, hop, hj⟩
      · exact hp ▸ hpc
      · have hp : r.machine.advance.regs.pc = m.regs.pc + 1 := hp
        omega
      · exact hp ▸ (hparted op hop).2 hj
    · intro hf
      refine ⟨?_, hcells⟩
      rcases hr.aimed with hp | ⟨hn, -⟩
      · exact hp ▸ hpc
      · exact absurd hn hf

theorem Confined.iterate (h : Confined base origin m) (hb : base.Parted origin) {k : Nat}
    (hrun : ∀ i < k, (Machine.next^[i] m).isRunning = true) :
    Confined base origin (Machine.next^[k] m) := by
  induction k with
  | zero => exact h
  | succ k ih =>
    rw [Function.iterate_succ_apply']
    exact (ih fun i hi => hrun i (by omega)).next hb (hrun k (by omega))

theorem Confined.of_alike {m' : Machine} (h : Confined base origin m)
    (ha : Likeness.exact.Alike m' m) : Confined base origin m' := by
  have hm : m'.memory = m.memory := ha.memory
  exact ⟨by rw [ha.regs]; exact h.pc, by rw [hm]; exact h.cells⟩

end Machine

namespace Emulator

open Machine

/-- No steps and runs lead below the origin or change anything from there on. -/
theorem confined_performAll {base : Memory} {origin : Int} {e : Emulator}
    (h : Confined base origin e.machine) (hb : base.Parted origin) {cs : List Call}
    (hd : ∀ c ∈ cs, c.drives = true) : Confined base origin (e.performAll cs).machine := by
  refine performAll_keeps (P := fun e' => Confined base origin e'.machine) h ?_
  intro e' c hc h
  have hi := h.iterate hb fun i => drive_running e' c
  exact hi.of_alike (drive_exact e' (hd c hc))

end Emulator

end DecimalMachine
