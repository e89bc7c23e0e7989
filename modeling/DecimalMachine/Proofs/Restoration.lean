import Mathlib.Logic.Relation
import DecimalMachine.Proofs.Twins
/-
  Restoration: an emulator that is reset is as it was right after its image was loaded. Whatever is
  done in between, short of loading another image, leaves the image in place and the size of memory as
  it is (`Kept.disturbs`), and loading depends on nothing else: all that is reset is made from the
  image and from the number of cells (`load_footing`). The words of an image are stored one by one, and
  nothing undoes that; the checks that come first leave no word to fail (`storeInto_eq`), so that
  loading stores all of them or none. It can still fail with all of them stored, when the origin is too
  long for the note that comes last (`Spills`).
-/
namespace DecimalMachine

/-! ## Storing an image word by word -/

namespace Memory

/-- Texts that can be read are all stored, if there is room for them. -/
theorem writeTexts_of_readAs {words : List String} {cells : List Cell} (h : Image.ReadAs words cells)
    {m : Memory} {start : Nat} (hroom : start + words.length ≤ m.size) :
    m.writeTexts start words = (m.setAll start cells, .ok words.length) := by
  induction h generalizing m start with
  | nil => rfl
  | @cons w c words cells hw _ ih =>
    rw [List.length_cons] at hroom
    have hheld : m.holds start = true := holds_iff.2 ⟨by omega, by omega⟩
    have hrest := @ih (m.set start c) (start + 1) (by rw [size_set]; omega)
    unfold writeTexts
    rw [hw]
    dsimp only
    rw [if_pos hheld, ← Int.natCast_succ, hrest]
    rfl

end Memory

namespace Image

/-- Stores an image as it is done: the checks, then the words one by one, and at last the note on it.
    What has been stored before something fails is not taken back. -/
def storeInto (i : Image) (m : Memory) : Memory × Except (ImageError ⊕ MachineError) Unit :=
  if m.size < i.words.length then (m, .error (.inl (.tooManyWords i.words.length m.size)))
  else
    match i.numbers with
    | .error e => (m, .error (.inl (.number e)))
    | .ok numbers =>
      match outOfRange? 0 i.words numbers with
      | some e => (m, .error (.inl e))
      | none =>
        match m.writeTexts 0 i.words with
        | (m, .error e) => (m, .error (.inr e))
        | (m, .ok _) =>
          match i.loadedNote with
          | .error e => (m, .error (.inl (.number e)))
          | .ok _ => (m, .ok ())

/-- Once the checks are passed every word is stored, and then only the note can fail. -/
theorem storeInto_eq (i : Image) (m : Memory) :
    i.storeInto m =
      ((i.loadOver m).1,
        match (i.loadOver m).2 with
        | .ok _ => .ok ()
        | .error e => .error (.inl e)) := by
  unfold storeInto loadOver cellsFor
  split
  · rfl
  · rename_i hroom
    cases hn : i.numbers with
    | error e => rfl
    | ok numbers =>
      dsimp only
      cases outOfRange? 0 i.words numbers with
      | some e => rfl
      | none =>
        have hread := readAs_iff.2 ⟨numbers, numbers_eq_ok_iff.1 hn, rfl⟩
        have hroom : 0 + i.words.length ≤ m.size := by omega
        rw [show m.writeTexts 0 i.words = _ from Memory.writeTexts_of_readAs hread hroom]
        cases i.loadedNote with
        | error e => rfl
        | ok note => rfl

/-- The words of an image fit in memory, but its origin is too long for the note that comes after
    them. -/
def Spills (i : Image) (m : Memory) : Prop :=
  (∃ cells, i.cellsFor m = .ok cells) ∧ ¬Text.IsWritable i.origin

theorem loadInto_iff_storeInto {i : Image} {m memory : Memory} :
    i.loadInto m = .ok memory ↔ i.storeInto m = (memory, .ok ()) := by
  rw [storeInto_eq, loadInto_eq_ok]
  rcases i.loadOver m with ⟨memory', e | note⟩
  · simp
  · simp

/-- A load that fails leaves memory alone, if it is not the note that fails. -/
theorem storeInto_of_error {i : Image} {m : Memory} {err : ImageError ⊕ MachineError}
    (h : (i.storeInto m).2 = .error err) :
    ∃ err', err = .inl err' ∧ i.loadInto m = .error err' ∧
      (¬i.Spills m → (i.storeInto m).1 = m) := by
  rw [storeInto_eq] at h ⊢
  cases hc : i.cellsFor m with
  | error e =>
    rw [loadOver_of_error hc] at h ⊢
    exact ⟨e, (Except.error.inj h).symm, loadInto_eq (loadOver_of_error hc), fun _ => rfl⟩
  | ok cells =>
    have hspills : i.Spills m := by
      refine ⟨⟨cells, hc⟩, fun hw => ?_⟩
      obtain ⟨note, hn⟩ := loadedNote_of_writable hw
      rw [loadOver_of_cells hc, hn] at h
      cases h
    rw [loadOver_of_cells hc, loadedNote_of_not_writable hspills.2] at h
    refine ⟨.number .writing, (Except.error.inj h).symm, ?_, fun hnot => absurd hspills hnot⟩
    rw [loadInto_eq (loadOver_of_cells hc), loadedNote_of_not_writable hspills.2]
    rfl

theorem storeInto_of_spills {i : Image} {m : Memory} {cells : List Cell} (hc : i.cellsFor m = .ok cells)
    (hw : ¬Text.IsWritable i.origin) :
    i.storeInto m = (m.setAll 0 cells, .error (.inl (.number .writing))) := by
  rw [storeInto_eq, loadOver_of_cells hc, loadedNote_of_not_writable hw]
  rfl

end Image

/-! ## Disturbances -/

/-- A write into memory from outside. -/
inductive Poke
  | cell (a : Int) (c : Cell)
  | text (a : Int) (s : String)
  | words (start : Int) (ws : List String)
  | clear

/-- Memory behind a write from outside, whether all of it succeeds or not. -/
def Memory.poke (m : Memory) : Poke → Memory
  | .cell a c => (m.write a c).toOption.getD m
  | .text a s => (m.writeText a s).toOption.getD m
  | .words start ws => (m.writeTexts start ws).1
  | .clear => m.clear

namespace Memory

theorem size_write (m : Memory) (a : Int) (c : Cell) :
    ((m.write a c).toOption.getD m).size = m.size := by
  unfold write
  split
  · exact size_set m a c
  · rfl

theorem size_writeTexts (m : Memory) (start : Int) (ws : List String) :
    (m.writeTexts start ws).1.size = m.size := by
  induction ws generalizing m start with
  | nil => rfl
  | cons w ws ih =>
    unfold writeTexts
    split
    · rfl
    · split
      · exact (ih _ _).trans (size_set ..)
      · rfl

theorem size_poke (m : Memory) (p : Poke) : (m.poke p).size = m.size := by
  cases p with
  | cell a c => exact size_write m a c
  | text a s =>
    show ((m.writeText a s).toOption.getD m).size = m.size
    unfold writeText
    cases Cell.ofText s with
    | error e => rfl
    | ok c => exact size_write m a c
  | words start ws => exact size_writeTexts m start ws
  | clear => exact size_clear m

theorem clear_congr {m m' : Memory} (h : m.size = m'.size) : m.clear = m'.clear := by
  unfold clear zeros
  congr 2

end Memory

/-- What a reset puts back: everything in a machine but its input and its journal. -/
structure Footing where
  memory : Memory
  regs : Registers
  state : RunState
  output : Array String
  warnings : Array String
  cycles : Nat
  resume : Option Int

def Machine.footing (m : Machine) : Footing :=
  ⟨m.memory, m.regs, m.state, m.output, m.warnings, m.cycles, m.resume⟩

namespace Emulator

open Machine Likeness

/-- What can be done to an emulator without loading another image: any call that loads nothing, a
    reset, a write into memory or into the registers from outside. -/
inductive Disturbs (e : Emulator) : Emulator → Prop
  | call (c : Call) (h : (e.perform c).2 ≠ .loaded) : Disturbs e (e.perform c).1
  | reset : Disturbs e e.reset.1
  | poke (p : Poke) : Disturbs e (e.modify fun m => { m with memory := m.memory.poke p })
  | setRegisters (r : Registers) : Disturbs e (e.modify fun m => { m with regs := r })

theorem Disturbs.step (e : Emulator) : Disturbs e e.step.1 := .call .step (reply_of_drives e rfl)

theorem Disturbs.refused {e : Emulator} {i : Image} (h : (e.load i).2 ≠ none) :
    Disturbs e (e.load i).1 := by
  refine .call (.load i) fun hl => h ?_
  have hl : Reply.ofLoad (e.load i).2 = .loaded := hl
  cases hr : (e.load i).2 with
  | none => rfl
  | some err =>
    rw [hr] at hl
    cases hl

/-- The image is in place, and memory has its size. -/
structure Kept (i : Image) (size : Nat) (e : Emulator) : Prop where
  image : e.image = some i
  size : e.machine.memory.size = size

variable {e e' : Emulator} {i : Image} {size : Nat}

/-- A call that loads nothing, or loads what is there already, keeps the image. -/
theorem Kept.perform (h : Kept i size e) {c : Call} (hc : c = .reset ∨ (e.perform c).2 ≠ .loaded) :
    Kept i size (e.perform c).1 := by
  refine ⟨?_, (size_perform e c).trans h.size⟩
  cases hd : c.drives with
  | true => exact (image_of_drives e hd).trans h.image
  | false =>
    have hs := settled e hd
    revert hs hc
    cases e.perform c with
    | mk e' reply =>
      intro hc hs
      cases hs with
      | kept => exact h.image
      | refused => exact h.image
      | started hl =>
        obtain rfl := hc.resolve_right fun hn => hn rfl
        rcases hl with hl | ⟨-, hl⟩ | ⟨_, hl, -⟩
        · cases hl
        · exact hl ▸ h.image
        · cases hl
      | blank hn => exact h.image
      | fed => exact h.image

theorem Kept.disturbs (h : Kept i size e) (hd : Disturbs e e') : Kept i size e' := by
  cases hd with
  | call c hc => exact h.perform (.inr hc)
  | reset => exact h.perform (c := .reset) (.inl rfl)
  | poke p => exact ⟨h.image, (Memory.size_poke _ p).trans h.size⟩
  | setRegisters r => exact ⟨h.image, h.size⟩

theorem Kept.of_disturbed (h : Kept i size e) (hd : Relation.ReflTransGen Disturbs e e') :
    Kept i size e' := by
  induction hd with
  | refl => exact h
  | tail _ hd ih => exact ih.disturbs hd

/-! ## Loading and resetting -/

/-- What is loaded depends on the image and on what memory it fills, and on nothing else. -/
theorem load_footing {memory : Memory} (h : i.loadInto e.machine.memory.clear = .ok memory) :
    (e.load i).2 = none ∧ Kept i e.machine.memory.size (e.load i).1 ∧
      (e.load i).1.machine.footing =
        ⟨memory, .startAt i.origin, .running, #[], #[], 0, none⟩ := by
  obtain ⟨k, hload, hk, hr⟩ := load_of_loadInto h
  have hmemory : k.memory = memory := hk.memory
  rw [hload]
  refine ⟨rfl, ⟨rfl, ?_⟩, ?_⟩
  · show k.memory.size = _
    rw [hmemory, Image.size_of_loadInto h, Memory.size_clear]
  · show k.footing = _
    unfold footing
    rw [hmemory, hk.regs, hk.state, hk.output, hk.warnings, hk.cycles, hr]
    rfl

/-- A reset puts back what the load of the image left, whatever has been done to the emulator since
    then, and what a fresh emulator of its size has after the same load. A load that fails has stored
    nothing, with one exception: when all words fit and the origin has too many digits for the note on
    it, they have all been stored. -/
theorem reset_restores (e : Emulator) (i : Image) (m : Memory) :
    ((e.load i).2 = none → ∀ e', Relation.ReflTransGen Disturbs (e.load i).1 e' →
      e'.reset.2 = none ∧
      e'.reset.1.machine.footing = (e.load i).1.machine.footing ∧
      ∀ (input : List String) (limit : Option Int),
        let fresh := Emulator.new (.zeros e.machine.memory.size e.machine.memory.sized) input limit
        (fresh.load i).2 = none ∧
          e'.reset.1.machine.footing = (fresh.load i).1.machine.footing) ∧
    (∀ memory, i.loadInto m = .ok memory ↔ i.storeInto m = (memory, .ok ())) ∧
    (∀ err, (i.storeInto m).2 = .error err →
      ∃ err', err = .inl err' ∧ i.loadInto m = .error err' ∧
        (¬i.Spills m → (i.storeInto m).1 = m)) ∧
    ∀ cells, i.cellsFor m = .ok cells → ¬Text.IsWritable i.origin →
      i.storeInto m = (m.setAll 0 cells, .error (.inl (.number .writing))) := by
  refine ⟨fun h e' hd => ?_, fun memory => Image.loadInto_iff_storeInto,
    fun err => Image.storeInto_of_error, fun cells => Image.storeInto_of_spills⟩
  obtain ⟨memory, hm⟩ := loadInto_of_load h
  obtain ⟨-, hkept, hfooting⟩ := load_footing hm
  have hsame := hkept.of_disturbed hd
  -- Clearing leaves nothing of memory but its size, so the load meets the same memory again.
  have hagain : i.loadInto e'.machine.memory.clear = .ok memory := by
    rw [Memory.clear_congr hsame.size, hm]
  obtain ⟨hok, -, hreset⟩ := load_footing hagain
  have hresets : e'.reset = e'.load i := by
    unfold reset
    rw [hsame.image]
  rw [hresets, hfooting]
  refine ⟨hok, hreset, fun input limit => ?_⟩
  intro fresh
  have hsize : fresh.machine.memory.size = e.machine.memory.size :=
    Memory.size_zeros _ e.machine.memory.sized
  have hfresh : i.loadInto fresh.machine.memory.clear = .ok memory := by
    rw [Memory.clear_congr hsize, hm]
  obtain ⟨hok', -, hnew⟩ := load_footing hfresh
  exact ⟨hok', hreset.trans hnew.symm⟩

/-- A step, a write that fails halfway, and a load that is refused and leaves memory cleared. -/
theorem reset_restores_disturbed :
    let e := ((new (.zeros 3 (by decide)) ["7"] none).load ⟨["1002", "4300"], 0, .empty⟩).1
    let poked := e.step.1.modify fun m => { m with memory := m.memory.poke (.words 1 ["5", "6", "7"]) }
    let e' := (poked.load ⟨["12345"], 0, .empty⟩).1
    poked.machine.memory.read? 2 = some (.num 6) ∧ e'.machine.memory.read? 2 = some .zero ∧
      e'.reset.1.machine.footing = e.machine.footing := by
  intro e poked e'
  have hd : Relation.ReflTransGen Disturbs e e' :=
    ((Relation.ReflTransGen.refl.tail (.step e)).tail (.poke _)).tail (.refused (by decide +kernel))
  obtain ⟨hreset, -, -, -⟩ := reset_restores
    (new (.zeros 3 (by decide)) ["7"] none) ⟨["1002", "4300"], 0, .empty⟩ e.machine.memory
  exact ⟨by decide +kernel, by decide +kernel, (hreset (by decide +kernel) e' hd).2.1⟩

/-- A load that fails with its word stored. The emulator keeps the word, but not the image. -/
theorem load_spills :
    let i : Image := ⟨["0001"], 10 ^ maxDigits, .empty⟩
    let m := Memory.zeros 1 (by decide)
    let e := (new m [] none).load i
    (i.storeInto m).2 = .error (.inl (.number .writing)) ∧ (i.storeInto m).1 ≠ m ∧
      e.2 = some (.number .writing) ∧ e.1.machine.memory.read? 0 = some (.num 1) ∧
      e.1.image = none := by
  intro i m e
  have hw : ¬Text.IsWritable i.origin := by
    rw [show i.origin = 10 ^ maxDigits from rfl, Text.isWritable_iff, Int.natAbs_pow,
      show (10 : Int).natAbs = 10 from rfl]
    exact Nat.lt_irrefl _
  have hcells : i.cellsFor m = .ok [.num 1] := rfl
  have hcleared : i.cellsFor m.clear = .ok [.num 1] := rfl
  have hstore := Image.storeInto_of_spills hcells hw
  have hover : i.loadOver (new m [] none).machine.memory.clear =
      (m.clear.setAll 0 [.num 1], .error (.number .writing)) := by
    rw [show (new m [] none).machine.memory = m from rfl, Image.loadOver_of_cells hcleared,
      Image.loadedNote_of_not_writable hw]
    rfl
  rw [hstore, show e = _ from load_of_refused hover]
  exact ⟨rfl, fun hm => absurd (congrArg (·.read? 0) hm) (by decide), rfl, by decide, rfl⟩

end Emulator

end DecimalMachine
