import Mathlib.Logic.Relation
import DecimalMachine.Proofs.LineReading
import DecimalMachine.Proofs.Restoration
/-
  The text of memory: every cell as it is shown, one text for each address. A cell is read back from its
  text if its number can be written, or its token is no numeral (`Cell.Faithful`). Whatever a text is
  stored as is such a cell (`faithful_of_ofText`), so that memory which was filled by texts, numbers and
  tokens that were read holds nothing else (`Faithful.stores`), and is read back cell by cell from what
  it shows (`text_restores`).
-/
namespace DecimalMachine

/-! ## Numbers that can be written -/

namespace Text

theorem length_toDigits_of_natOfDigits {s : List Char} (hs : isDigits s = true) {k : Nat}
    (h : natOfDigits s = .ok k) : (Nat.toDigits 10 k).length ≤ maxDigits := by
  by_cases hlen : s.length ≤ maxDigits
  · obtain ⟨n, hn, hlt⟩ := natOfDigits_of_digitRuns hs (digitRuns_of_length hlen) (Nat.le_refl _)
    obtain rfl := Except.ok.inj (hn.symm.trans h)
    exact (Nat.length_toDigits_le_iff (by decide) (by decide)).2 hlt
  · unfold natOfDigits at h
    rw [if_neg hlen] at h
    cases h

theorem length_toDigits_of_intOfNumeral {s : List Char} (hs : isNumeral s = true) {n : Int}
    (h : intOfNumeral s = .ok n) : (Nat.toDigits 10 n.natAbs).length ≤ maxDigits := by
  unfold intOfNumeral at h
  cases hk : natOfDigits (splitSign s).2 with
  | error e => rw [hk] at h; cases h
  | ok k =>
    rw [hk] at h
    obtain rfl := Except.ok.inj h
    have habs : (applySign (splitSign s).1 k).natAbs = k := by
      unfold applySign
      split <;> omega
    rw [habs]
    exact length_toDigits_of_natOfDigits hs hk

end Text

/-- A number that is read from a text has no more digits than one that is written may have. -/
theorem Word.length_toDigits_of_parse {s : String} {n : Int} (h : parse s = .ok (some n)) :
    (Nat.toDigits 10 n.natAbs).length ≤ maxDigits := by
  unfold parse Text.readNumeral at h
  split at h
  · rename_i hs
    cases hk : Text.intOfNumeral (Text.trim s.toList) with
    | error e => rw [hk] at h; cases h
    | ok k =>
      rw [hk] at h
      obtain rfl := Option.some.inj (Except.ok.inj h)
      exact Text.length_toDigits_of_intOfNumeral hs hk
  · cases h

/-! ## Cells -/

namespace Cell

/-- The cell is what its text is stored as. -/
def Faithful (c : Cell) : Prop := ofText c.render = .ok c

theorem faithful_num_iff {n : Int} :
    (num n).Faithful ↔ (Nat.toDigits 10 n.natAbs).length ≤ maxDigits := by
  constructor
  · intro h
    obtain ⟨k, hk, hc⟩ := Image.parse_of_ofText h
    obtain rfl := Image.cellOf_eq_num.1 hc
    exact Word.length_toDigits_of_parse hk
  · intro h
    exact Image.ofText_of_parse (Word.parse_render_of_length h)

/-- Whatever a text is stored as is read back from its own text. -/
theorem faithful_of_ofText {s : String} {c : Cell} (h : ofText s = .ok c) : c.Faithful := by
  obtain ⟨n, hn, rfl⟩ := Image.parse_of_ofText h
  cases n with
  | none => exact h
  | some n => exact faithful_num_iff.2 (Word.length_toDigits_of_parse hn)

end Cell

namespace Memory

/-! ## Memory that is read back -/

theorem ext_read? {m m' : Memory} (h : ∀ a : Nat, m.read? a = m'.read? a) : m = m' := by
  obtain ⟨cells, hne⟩ := m
  obtain ⟨cells', hne'⟩ := m'
  have hcells : cells = cells' := Array.ext_getElem? fun a => by
    have ha := h a
    rwa [read?_natCast, read?_natCast] at ha
  subst hcells
  rfl

/-- Memory is known by its cells, however they have been stored. -/
theorem setAll_toList {m m' : Memory} (h : m'.size = m.size) :
    m'.setAll 0 m.cells.toList = m := by
  have hlen : m.cells.toList.length = m.size := Array.length_toList
  refine ext_read? fun a => ?_
  rw [read?_setAll (by omega), Nat.sub_zero, hlen, Nat.zero_add, Array.getElem?_toList,
    ← read?_natCast]
  by_cases ha : a < m.size
  · rw [if_pos ⟨Nat.zero_le a, ha⟩]
  · have hout : ∀ {k : Memory}, k.size = m.size → k.read? a = none := fun hk =>
      read?_eq_none_iff.2 (Bool.eq_false_iff.2 fun hh => by have := holds_iff.1 hh; omega)
    rw [if_neg fun hin => ha hin.2, hout h, hout rfl]

/-- Every cell is what its text is stored as. -/
def Faithful (m : Memory) : Prop := ∀ c ∈ m.cells, c.Faithful

/-- The text of a memory with such cells is read back, whatever it is read into. -/
theorem Faithful.writeTexts_render {m m' : Memory} (hm : m.Faithful) (h : m'.size = m.size) :
    m'.writeTexts 0 (m.cells.toList.map Cell.render) = (m, .ok m.size) := by
  have hread : Image.ReadAs (m.cells.toList.map Cell.render) m.cells.toList := by
    refine List.forall₂_map_left_iff.2 (List.forall₂_same.2 fun c hc => ?_)
    exact hm c (Array.mem_toList_iff.1 hc)
  have hlen : (m.cells.toList.map Cell.render).length = m.size := by simp [size]
  have hroom : 0 + (m.cells.toList.map Cell.render).length ≤ m'.size := by omega
  rw [← Int.natCast_zero, writeTexts_of_readAs hread hroom, setAll_toList h, hlen]

/-! ## Calls that store -/

theorem faithful_zeros (n : Nat) (h : IsMemorySize n) : (zeros n h).Faithful := by
  intro c hc
  obtain ⟨-, rfl⟩ := Array.mem_replicate.1 hc
  exact Cell.faithful_num_iff.2 (by decide)

theorem Faithful.set {m : Memory} (h : m.Faithful) (a : Int) {c : Cell} (hc : c.Faithful) :
    (m.set a c).Faithful := by
  intro d hd
  unfold Memory.set at hd
  split at hd
  · rcases Array.mem_or_eq_of_mem_setIfInBounds hd with hd | rfl
    · exact h d hd
    · exact hc
  · exact h d hd

theorem Faithful.write {m : Memory} (h : m.Faithful) (a : Int) {c : Cell} (hc : c.Faithful) :
    ((m.write a c).toOption.getD m).Faithful := by
  unfold Memory.write
  split
  · exact h.set a hc
  · exact h

theorem Faithful.writeTexts {m : Memory} (h : m.Faithful) (start : Int) (texts : List String) :
    (m.writeTexts start texts).1.Faithful := by
  induction texts generalizing m start with
  | nil => exact h
  | cons s texts ih =>
    unfold Memory.writeTexts
    cases hs : Cell.ofText s with
    | error e => exact h
    | ok c =>
      dsimp only
      split
      · exact ih (h.set start (Cell.faithful_of_ofText hs)) (start + 1)
      · exact h

/-- What a call that stores leaves of memory, whether it fails or not: a text, a number that can be
    written, texts one behind the other, zeros, or a token that an instruction reads. -/
inductive Stores (m : Memory) : Memory → Prop
  | text (a : Int) (s : String) : Stores m (m.poke (.text a s))
  | value (a : Int) {n : Int} (hn : (Nat.toDigits 10 n.natAbs).length ≤ maxDigits) :
      Stores m (m.poke (.cell a (.num n)))
  | words (start : Int) (texts : List String) : Stores m (m.poke (.words start texts))
  | clear : Stores m (m.poke .clear)
  | token {k : Machine} (hk : k.memory = m) (a : Int) : Stores m (k.execute .read a).machine.memory

/-- An instruction that reads leaves memory alone, or stores its token as a text is stored. -/
theorem memory_read (k : Machine) (a : Int) :
    (k.execute .read a).machine.memory = k.memory ∨
      ∃ t c, Cell.ofText t = .ok c ∧ (k.execute .read a).machine.memory = k.memory.set a c := by
  have hread : Machine.Carried k .read a (k.execute .read a) := Machine.carried_readInto
  generalize k.execute .read a = r at hread ⊢
  cases hread with
  | refused hop he => exact absurd rfl hop
  | refusedToken hop hk he => exact .inl ((Machine.fail_memory _ _).trans (Machine.taken_memory hk))
  | stored hop hn => cases hop
  | tookToken hop hk ht hc hv hn => exact .inr ⟨_, _, hc, rfl⟩
  | _ => exact .inl rfl

theorem Stores.size_eq {m m' : Memory} (h : Stores m m') : m'.size = m.size := by
  cases h with
  | token hk a =>
    subst hk
    rcases memory_read _ a with hm | ⟨t, c, -, hm⟩
    · rw [hm]
    · rw [hm, size_set]
  | _ => exact size_poke m _

theorem Faithful.stores {m m' : Memory} (hm : m.Faithful) (h : Stores m m') : m'.Faithful := by
  cases h with
  | text a s =>
    show ((m.writeText a s).toOption.getD m).Faithful
    unfold Memory.writeText
    cases hs : Cell.ofText s with
    | error e => exact hm
    | ok c => exact hm.write a (Cell.faithful_of_ofText hs)
  | value a hn => exact hm.write a (Cell.faithful_num_iff.2 hn)
  | words start texts => exact hm.writeTexts start texts
  | clear => exact faithful_zeros _ m.sized
  | token hk a =>
    subst hk
    rcases memory_read _ a with hr | ⟨t, c, hc, hr⟩
    · rw [hr]
      exact hm
    · rw [hr]
      exact hm.set a (Cell.faithful_of_ofText hc)

/-- Memory that is filled by such calls keeps its size, and all its cells can be read back. -/
theorem faithful_of_stores {m m' : Memory} (hm : m.Faithful) (h : Relation.ReflTransGen Stores m m') :
    m'.size = m.size ∧ m'.Faithful := by
  induction h with
  | refl => exact ⟨rfl, hm⟩
  | tail _ hstep ih => exact ⟨hstep.size_eq.trans ih.1, ih.2.stores hstep⟩

/-- The text of memory is a snapshot of it: however a memory has been filled by calls that store, those
    that failed among them, its numbers can all be written, and its text fills a new memory of its size
    with the same cells. -/
theorem text_restores {size : Int} {fresh m : Memory} (hfresh : ofSize size = .ok fresh)
    (h : Relation.ReflTransGen Stores fresh m) :
    (∀ n, Cell.num n ∈ m.cells → ∃ t, Text.writeNumeral n = .ok t) ∧ (m.size : Int) = size ∧
      fresh.writeTexts 0 (m.cells.toList.map Cell.render) = (m, .ok m.size) := by
  have hzeros : ∃ hpos, fresh = zeros size.toNat hpos ∧ 0 < size := by
    unfold ofSize at hfresh
    split at hfresh
    · rename_i hpos
      split at hfresh
      · exact ⟨_, (Except.ok.inj hfresh).symm, hpos⟩
      · cases hfresh
    · cases hfresh
  obtain ⟨hpos, rfl, hsize⟩ := hzeros
  obtain ⟨hlen, hm⟩ := faithful_of_stores (faithful_zeros _ hpos) h
  refine ⟨fun n hn => ⟨_, if_pos (Cell.faithful_num_iff.1 (hm _ hn))⟩, ?_,
    hm.writeTexts_render hlen.symm⟩
  rw [hlen, size_zeros]
  omega

/-- A number with blanks and a sign, a token with a blank in it, words of which the second is outside
    memory, and a number of more digits than a word has. -/
theorem text_restores_mixed : ∃ m, Relation.ReflTransGen Stores (zeros 3 (by decide)) m ∧
    m.cells.toList.map Cell.render = ["0007", "hi there", "-12345"] ∧
    (zeros 3 (by decide)).writeTexts 0 ["0007", "hi there", "-12345"] = (m, .ok 3) := by
  let reader : Machine := .new ((zeros 3 (by decide)).poke (.text 0 " +07\t")) ["hi there"]
  let filled := (reader.execute .read 1).machine.memory.poke (.words 2 ["5", "6"])
  have hstores : Relation.ReflTransGen Stores (zeros 3 (by decide))
      (filled.poke (.cell 2 (.num (-12345)))) :=
    (((Relation.ReflTransGen.refl.tail (.text 0 " +07\t")).tail (.token (k := reader) rfl 1)).tail
      (.words 2 ["5", "6"])).tail (.value 2 (by decide))
  have htext : (filled.poke (.cell 2 (.num (-12345)))).cells.toList.map Cell.render =
      ["0007", "hi there", "-12345"] := by
    decide +kernel
  obtain ⟨-, -, hrestored⟩ := @text_restores 3 _ _ rfl hstores
  rw [htext] at hrestored
  exact ⟨_, hstores, htext, hrestored⟩

end Memory

end DecimalMachine
