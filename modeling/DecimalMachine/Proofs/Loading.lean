import Mathlib.Data.List.Forall2
import DecimalMachine.Proofs.Calls
/-
  Loading: what an image becomes in memory, and what a call that does not execute leaves of an
  emulator. An image is stored as the cells that its words read as, from address zero on, if
  there is room for them and their numbers are in range (`cellsFor_eq_ok_iff`), and it is loaded if
  its origin can be written too (`loadInto_eq_ok_iff`). Of the calls that do not drive the machine
  each one keeps it, changes its memory, starts it over or feeds it (`settled`).
-/
namespace DecimalMachine

namespace Image

/-! ## Words as cells -/

/-- The cells that words read as. -/
abbrev ReadAs (words : List String) (cells : List Cell) : Prop :=
  List.Forall₂ (fun w c => Cell.ofText w = .ok c) words cells

/-- The cell of a word, given the number that it reads as. -/
def cellOf (w : String) (n : Option Int) : Cell := n.elim (.raw w) .num

theorem ofText_of_parse {w : String} {n : Option Int} (h : Word.parse w = .ok n) :
    Cell.ofText w = .ok (cellOf w n) := by
  unfold Cell.ofText cellOf
  rw [h]
  cases n <;> rfl

theorem parse_of_ofText {w : String} {c : Cell} (h : Cell.ofText w = .ok c) :
    ∃ n, Word.parse w = .ok n ∧ cellOf w n = c := by
  cases hp : Word.parse w with
  | error e =>
    unfold Cell.ofText at h
    rw [hp] at h
    cases h
  | ok n =>
    rw [ofText_of_parse hp] at h
    exact ⟨n, rfl, Except.ok.inj h⟩

theorem cellOf_eq_num {w : String} {n : Option Int} {v : Int} :
    cellOf w n = .num v ↔ n = some v := by
  unfold cellOf
  cases n <;> simp

theorem mapM_parse_cons (w : String) (words : List String) :
    (w :: words).mapM Word.parse =
      (Word.parse w).bind fun n => (words.mapM Word.parse).map (n :: ·) := by
  rw [List.mapM_cons]
  cases Word.parse w with
  | error e => rfl
  | ok n => cases words.mapM Word.parse <;> rfl

theorem numbers_eq_ok_iff {words : List String} {ns : List (Option Int)} :
    words.mapM Word.parse = .ok ns ↔ List.Forall₂ (fun w n => Word.parse w = .ok n) words ns := by
  constructor
  · intro h
    induction words generalizing ns with
    | nil =>
      obtain rfl : [] = ns := Except.ok.inj h
      exact .nil
    | cons w words ih =>
      rw [mapM_parse_cons] at h
      cases hw : Word.parse w with
      | error e => rw [hw] at h; cases h
      | ok n =>
        rw [hw] at h
        cases hr : words.mapM Word.parse with
        | error e => rw [hr] at h; cases h
        | ok rest =>
          rw [hr] at h
          cases h
          exact .cons hw (ih hr)
  · intro h
    induction h with
    | nil => rfl
    | cons hw _ ih => rw [mapM_parse_cons, hw, ih]; rfl

theorem readAs_iff {words : List String} {cells : List Cell} :
    ReadAs words cells ↔ ∃ ns, List.Forall₂ (fun w n => Word.parse w = .ok n) words ns ∧
      cells = List.zipWith cellOf words ns := by
  constructor
  · intro h
    induction h with
    | nil => exact ⟨[], .nil, rfl⟩
    | cons hc _ ih =>
      obtain ⟨n, hn, rfl⟩ := parse_of_ofText hc
      obtain ⟨ns, hns, rfl⟩ := ih
      exact ⟨n :: ns, .cons hn hns, rfl⟩
  · rintro ⟨ns, hns, rfl⟩
    induction hns with
    | nil => exact .nil
    | cons hn _ ih => exact .cons (ofText_of_parse hn) ih

/-- Whether a word is in range is decided by the number that it reads as. -/
theorem outOfRange?_eq_none_iff {words : List String} {ns : List (Option Int)}
    (h : words.length = ns.length) (a : Nat) :
    outOfRange? a words ns = none ↔
      ∀ v, Cell.num v ∈ List.zipWith cellOf words ns → Word.inRange v = true := by
  induction words generalizing ns a with
  | nil =>
    obtain rfl := List.eq_nil_of_length_eq_zero h.symm
    simp [outOfRange?]
  | cons w words ih =>
    cases ns with
    | nil => cases h
    | cons n ns =>
      have hi := ih (Nat.succ.inj h) (a + 1)
      have hc : ∀ v, Cell.num v = cellOf w n ↔ n = some v := fun v => by
        rw [eq_comm, cellOf_eq_num]
      unfold outOfRange?
      simp only [List.zipWith_cons_cons, List.mem_cons, or_imp, forall_and, ← hi, hc]
      cases n with
      | none => simp
      | some v => cases hv : Word.inRange v <;> simp [hv]

/-- The words of an image fit in memory exactly when there is room and their numbers are in range, and
    then their cells are what they read as. -/
theorem cellsFor_eq_ok_iff {i : Image} {m : Memory} {cells : List Cell} :
    i.cellsFor m = .ok cells ↔ i.words.length ≤ m.size ∧ ReadAs i.words cells ∧
      ∀ v, Cell.num v ∈ cells → Word.inRange v = true := by
  unfold cellsFor
  by_cases hl : m.size < i.words.length
  · rw [if_pos hl]
    constructor
    · nofun
    · rintro ⟨h, -⟩
      omega
  · rw [if_neg hl]
    have hle : i.words.length ≤ m.size := by omega
    cases hn : i.numbers with
    | error e =>
      constructor
      · nofun
      · rintro ⟨-, hc, -⟩
        obtain ⟨ns, hns, -⟩ := readAs_iff.1 hc
        rw [show i.numbers = .ok ns from numbers_eq_ok_iff.2 hns] at hn
        cases hn
    | ok ns =>
      have hns := numbers_eq_ok_iff.1 hn
      have hr := outOfRange?_eq_none_iff hns.length_eq 0
      dsimp only
      constructor
      · intro h
        split at h
        · cases h
        · rename_i ho
          obtain rfl := Except.ok.inj h
          exact ⟨hle, readAs_iff.2 ⟨ns, hns, rfl⟩, hr.1 ho⟩
      · rintro ⟨-, hc, hv⟩
        obtain ⟨ns', hns', rfl⟩ := readAs_iff.1 hc
        have he : i.numbers = .ok ns' := numbers_eq_ok_iff.2 hns'
        obtain rfl : ns = ns' := Except.ok.inj (hn.symm.trans he)
        rw [hr.2 hv]
        rfl

/-! ## Storing them -/

theorem loadedNote_of_writable {i : Image} (h : Text.IsWritable i.origin) :
    ∃ note, i.loadedNote = .ok note := by
  unfold loadedNote
  rw [Text.writeNumeral_of_writable h]
  exact ⟨_, rfl⟩

theorem loadedNote_of_not_writable {i : Image} (h : ¬Text.IsWritable i.origin) :
    i.loadedNote = .error .writing := by
  unfold loadedNote
  rw [Text.writeNumeral_of_not_writable h]
  rfl

theorem loadOver_of_error {i : Image} {m : Memory} {e : ImageError} (h : i.cellsFor m = .error e) :
    i.loadOver m = (m, .error e) := by
  unfold loadOver
  rw [h]

/-- Words that fit are stored, whether the note on it can be written or not. -/
theorem loadOver_of_cells {i : Image} {m : Memory} {cells : List Cell} (h : i.cellsFor m = .ok cells) :
    i.loadOver m = (m.setAll 0 cells, i.loadedNote.mapError .number) := by
  unfold loadOver
  rw [h]

theorem loadInto_eq {i : Image} {m memory : Memory} {noted : Except ImageError Note}
    (h : i.loadOver m = (memory, noted)) : i.loadInto m = noted.map fun _ => memory := by
  unfold loadInto
  rw [h]

theorem loadInto_eq_ok {i : Image} {m memory : Memory} :
    i.loadInto m = .ok memory ↔ ∃ note, i.loadOver m = (memory, .ok note) := by
  rcases h : i.loadOver m with ⟨memory', e | note⟩
  · rw [loadInto_eq h]
    simp [Except.map]
  · rw [loadInto_eq h]
    simp [Except.map]

/-- An image loads into memory exactly when its origin can be written, there is room and its numbers
    are in range, and it becomes the cells that its words read as. -/
theorem loadInto_eq_ok_iff {i : Image} {m memory : Memory} :
    i.loadInto m = .ok memory ↔ Text.IsWritable i.origin ∧ i.words.length ≤ m.size ∧
      ∃ cells, ReadAs i.words cells ∧ (∀ v, Cell.num v ∈ cells → Word.inRange v = true) ∧
        memory = m.setAll 0 cells := by
  cases hc : i.cellsFor m with
  | error e =>
    rw [loadInto_eq (loadOver_of_error hc)]
    constructor
    · nofun
    · rintro ⟨-, hl, cells, hread, hv, -⟩
      rw [cellsFor_eq_ok_iff.2 ⟨hl, hread, hv⟩] at hc
      cases hc
  | ok cells =>
    obtain ⟨hl, hread, hv⟩ := cellsFor_eq_ok_iff.1 hc
    rw [loadInto_eq (loadOver_of_cells hc)]
    constructor
    · intro h
      have hw : Text.IsWritable i.origin := by
        by_contra hw
        rw [loadedNote_of_not_writable hw] at h
        cases h
      obtain ⟨note, hn⟩ := loadedNote_of_writable hw
      rw [hn] at h
      exact ⟨hw, hl, cells, hread, hv, (Except.ok.inj h).symm⟩
    · rintro ⟨hw, -, cells', hread', hv', rfl⟩
      obtain rfl : cells = cells' :=
        Except.ok.inj (hc.symm.trans (cellsFor_eq_ok_iff.2 ⟨hl, hread', hv'⟩))
      obtain ⟨note, hn⟩ := loadedNote_of_writable hw
      rw [hn]
      rfl

/-- Whether an image loads does not depend on what memory holds. -/
theorem loadInto_congr {i : Image} {m m' memory : Memory} (h : i.loadInto m = .ok memory)
    (hs : m.size = m'.size) : ∃ memory', i.loadInto m' = .ok memory' := by
  obtain ⟨hw, hl, cells, hc, hv, -⟩ := loadInto_eq_ok_iff.1 h
  exact ⟨_, loadInto_eq_ok_iff.2 ⟨hw, hs ▸ hl, cells, hc, hv, rfl⟩⟩

/-- A load leaves memory as it was or with the cells of its words, which are in range. -/
theorem loadOver_cases (i : Image) (m : Memory) :
    (i.loadOver m).1 = m ∨ ∃ cells, i.cellsFor m = .ok cells ∧ (i.loadOver m).1 = m.setAll 0 cells := by
  cases h : i.cellsFor m with
  | error e => rw [loadOver_of_error h]; exact .inl rfl
  | ok cells => rw [loadOver_of_cells h]; exact .inr ⟨cells, rfl, rfl⟩

theorem size_loadOver (i : Image) (m : Memory) : (i.loadOver m).1.size = m.size := by
  rcases loadOver_cases i m with h | ⟨cells, -, h⟩
  · rw [h]
  · rw [h]
    exact Memory.size_setAll m 0 cells

theorem ranged_loadOver (i : Image) {m : Memory} (hm : m.Ranged) : (i.loadOver m).1.Ranged := by
  rcases loadOver_cases i m with h | ⟨cells, hc, h⟩
  · rwa [h]
  · rw [h]
    exact hm.setAll 0 (cellsFor_eq_ok_iff.1 hc).2.2

/-- Whatever comes of a load over cleared memory, memory keeps its size and is in range. -/
theorem loadOver_clear {i : Image} {m memory : Memory} {noted : Except ImageError Note}
    (h : i.loadOver m.clear = (memory, noted)) : memory.size = m.size ∧ memory.Ranged := by
  have hsize := size_loadOver i m.clear
  have hranged := ranged_loadOver i (Memory.Ranged.clear m)
  rw [h] at hsize hranged
  exact ⟨hsize.trans (Memory.size_clear m), hranged⟩

theorem size_of_loadInto {i : Image} {m memory : Memory} (h : i.loadInto m = .ok memory) :
    memory.size = m.size := by
  obtain ⟨note, hl⟩ := loadInto_eq_ok.1 h
  rw [← size_loadOver i m, hl]

theorem ranged_of_loadInto {i : Image} {m memory : Memory} (hm : m.Ranged)
    (h : i.loadInto m = .ok memory) : memory.Ranged := by
  obtain ⟨note, hl⟩ := loadInto_eq_ok.1 h
  have hr := ranged_loadOver i hm
  rwa [hl] at hr

end Image

namespace Emulator

open Machine Likeness

/-! ## Calls that do not execute -/

theorem addNotes_exact (m : Machine) (notes : Array Note) :
    exact.Alike (addNotes m notes) m ∧ (addNotes m notes).resume = m.resume := by
  unfold addNotes
  rw [← Array.foldl_toList]
  induction notes.toList generalizing m with
  | nil => exact ⟨.refl m, rfl⟩
  | cons t ts ih =>
    obtain ⟨ha, hr⟩ := ih (m.note t)
    exact ⟨ha.trans (.of_note m t), hr⟩

/-- What becomes of an emulator in a call that does not drive its machine. -/
inductive Settled (e : Emulator) : Call → Emulator × Reply → Prop
  /-- The call is refused before anything is done. -/
  | kept {c : Call} {k : Machine} {reply : Reply} (hc : c ≠ .reset) (hk : exact.Alike k e.machine)
      (hr : k.resume = e.machine.resume) (hl : reply ≠ .loaded) :
      Settled e c ({ e with machine := k }, reply)
  /-- The image is refused. Memory is what that leaves of it when it has been cleared. -/
  | refused {c : Call} {k : Machine} {i : Image} {memory : Memory} {err : ImageError}
      (hc : c = .reset → e.image = some i)
      (hi : i.loadOver e.machine.memory.clear = (memory, .error err))
      (hk : exact.Alike k { e.machine with memory }) (hr : k.resume = e.machine.resume) :
      Settled e c ({ e with machine := k }, .refused err)
  /-- An image has been loaded, and the machine starts at its origin. -/
  | started {c : Call} {k : Machine} {i : Image} {memory : Memory}
      (hc : c = .load i ∨ c = .reset ∧ e.image = some i ∨
        ∃ text, c = .loadFile (some text) ∧
          (Image.parse text (some e.machine.memory.size)).result = .ok i)
      (hi : i.loadInto e.machine.memory.clear = .ok memory)
      (hk : exact.Alike k ({ e.machine with memory }.reset i.origin)) (hr : k.resume = none) :
      Settled e c ({ e with machine := k, image := some i }, .loaded)
  /-- There is no image, and the machine starts at zero. -/
  | blank (hi : e.image = none) :
      Settled e .reset ({ e with machine := (clearMemory e.machine).reset 0 }, .loaded)
  | fed (tokens : List String) : Settled e (.feed tokens) (e.feed tokens, .done)

/-- An image that loads is loaded, and nothing of the machine outlives that but its input and what it
    has written. -/
theorem load_of_loadInto {e : Emulator} {i : Image} {memory : Memory}
    (h : i.loadInto e.machine.memory.clear = .ok memory) :
    ∃ k, e.load i = ({ e with machine := k, image := some i }, none) ∧
      exact.Alike k ({ e.machine with memory }.reset i.origin) ∧ k.resume = none := by
  obtain ⟨note, hl⟩ := Image.loadInto_eq_ok.1 h
  let m := (({ e.machine with memory } : Machine).note note).reset i.origin
  have hreset : exact.Alike m ({ e.machine with memory }.reset i.origin) :=
    ⟨rfl, rfl, rfl, rfl, rfl, rfl, rfl, written_note _ _⟩
  refine ⟨m.debug s!"Loaded {i.words.length} words, execution starts at {twoDigits i.origin}",
    ?_, (Alike.of_note m _).trans hreset, rfl⟩
  simp only [m, load, hl]

/-- An image that is refused changes nothing but memory. -/
theorem load_of_refused {e : Emulator} {i : Image} {memory : Memory} {err : ImageError}
    (h : i.loadOver e.machine.memory.clear = (memory, .error err)) :
    e.load i = ({ e with machine := { e.machine with memory } }, some err) := by
  simp only [load, modify, h]

theorem loadInto_of_load {e : Emulator} {i : Image} (h : (e.load i).2 = none) :
    ∃ memory, i.loadInto e.machine.memory.clear = .ok memory := by
  rcases hi : i.loadOver e.machine.memory.clear with ⟨memory, err | note⟩
  · rw [load_of_refused hi] at h
    cases h
  · exact ⟨memory, Image.loadInto_eq_ok.2 ⟨note, hi⟩⟩

theorem load_settled {e : Emulator} {k : Machine} {c : Call} {i : Image}
    (hk : exact.Alike k e.machine) (hr : k.resume = e.machine.resume)
    (hc : c = .load i ∨ c = .reset ∧ e.image = some i ∨
      ∃ text, c = .loadFile (some text) ∧
        (Image.parse text (some e.machine.memory.size)).result = .ok i) :
    let r := ({ e with machine := k } : Emulator).load i
    Settled e c (r.1, .ofLoad r.2) := by
  have hm : k.memory = e.machine.memory := hk.memory
  intro r
  rcases hi : i.loadOver e.machine.memory.clear with ⟨memory, err | note⟩
  · have hi' : i.loadOver k.memory.clear = (memory, .error err) := by rw [hm, hi]
    have hload : r = ({ e with machine := { k with memory } }, some err) := load_of_refused hi'
    have hleft : exact.Alike { k with memory } { e.machine with memory } :=
      { hk with memory := rfl, written := hk.written }
    have hreset : c = .reset → e.image = some i := by
      rintro rfl
      rcases hc with h | ⟨-, h⟩ | ⟨_, h, -⟩
      · cases h
      · exact h
      · cases h
    rw [hload]
    exact .refused hreset hi hleft hr
  · have hinto : i.loadInto e.machine.memory.clear = .ok memory :=
      Image.loadInto_eq_ok.2 ⟨note, hi⟩
    have hi' : i.loadInto k.memory.clear = .ok memory := by rw [hm, hinto]
    obtain ⟨k', hload, hk', hr'⟩ := load_of_loadInto (e := { e with machine := k }) hi'
    have hreset : exact.Alike ({ k with memory }.reset i.origin)
        ({ e.machine with memory }.reset i.origin) :=
      ⟨rfl, rfl, rfl, hk.input, rfl, rfl, rfl, hk.written⟩
    rw [show r = _ from hload]
    exact .started hc hinto (hk'.trans hreset) hr'

theorem settled (e : Emulator) {c : Call} (hc : c.drives = false) :
    Settled e c (e.perform c) := by
  cases c with
  | load i => exact load_settled (.refl _) rfl (.inl rfl)
  | loadFile content =>
    cases content with
    | none => exact .kept nofun (.refl _) rfl nofun
    | some text =>
      have hk := addNotes_exact e.machine (Image.parse text (some e.machine.memory.size)).notes
      unfold perform loadText
      dsimp only
      cases hp : (Image.parse text (some e.machine.memory.size)).result with
      | error err => exact .kept nofun hk.1 hk.2 nofun
      | ok i => exact load_settled hk.1 hk.2 (.inr (.inr ⟨text, rfl, hp⟩))
  | reset =>
    unfold perform reset
    cases hi : e.image with
    | none => exact .blank hi
    | some i => exact load_settled (.refl _) rfl (.inr (.inl ⟨rfl, hi⟩))
  | feed tokens => exact .fed tokens
  | _ => cases hc

/-! ## What every call keeps -/

theorem size_iterate_next (m : Machine) (k : Nat) : (next^[k] m).memory.size = m.memory.size := by
  induction k generalizing m with
  | zero => rfl
  | succ k ih => exact (ih m.next).trans (cycle_size m)

/-- No call changes the size of memory. -/
theorem size_perform (e : Emulator) (c : Call) :
    (e.perform c).1.machine.memory.size = e.machine.memory.size := by
  cases hc : c.drives with
  | true =>
    have hm : (e.perform c).1.machine.memory = _ := (drive_exact e hc).memory
    rw [hm, size_iterate_next]
  | false =>
    have h := settled e hc
    cases hr : e.perform c
    rw [hr] at h
    cases h with
    | kept _ hk =>
      have hm : _ = e.machine.memory := hk.memory
      simp only [hm]
    | @refused _ k i memory err _ hi hk =>
      have hm : k.memory = memory := hk.memory
      exact hm ▸ (Image.loadOver_clear hi).1
    | @started _ k i memory _ hi hk =>
      have hm : k.memory = memory := hk.memory
      rw [← Memory.size_clear e.machine.memory, ← Image.size_of_loadInto hi, ← hm]
    | blank => exact Memory.size_clear _
    | fed => rfl

theorem image_of_drives (e : Emulator) {c : Call} (hc : c.drives = true) :
    (e.perform c).1.image = e.image := by
  cases c with
  | step | run | addBreakpoint | removeBreakpoint | clearBreakpoints => rfl
  | _ => cases hc

/-- The image of an emulator can be loaded again. -/
def Reloads (e : Emulator) : Prop :=
  ∀ i, e.image = some i → ∃ memory, i.loadInto e.machine.memory.clear = .ok memory

theorem reloads_new (memory : Memory) (input : List String) (limit : Option Int) :
    (Emulator.new memory input limit).Reloads := nofun

/-- An image that has been loaded once can always be loaded again: memory keeps its size. -/
theorem Reloads.perform {e : Emulator} (h : e.Reloads) (c : Call) : (e.perform c).1.Reloads := by
  intro i hi
  have hload : ∃ memory, i.loadInto e.machine.memory.clear = .ok memory := by
    cases hc : c.drives with
    | true =>
      rw [image_of_drives e hc] at hi
      exact h i hi
    | false =>
      have hs := settled e hc
      cases hr : e.perform c
      rw [hr] at hs hi
      cases hs with
      | kept => exact h i hi
      | refused => exact h i hi
      | started _ hl =>
        obtain rfl := Option.some.inj hi
        exact ⟨_, hl⟩
      | blank hn => exact h i hi
      | fed => exact h i hi
  obtain ⟨memory, hm⟩ := hload
  refine Image.loadInto_congr hm ?_
  rw [Memory.size_clear, Memory.size_clear, size_perform]

end Emulator

end DecimalMachine
