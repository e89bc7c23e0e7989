import DecimalMachine.Memory
import DecimalMachine.Proofs.Numerals
/-
  Memory: what a read sees after a write, and memories all of whose numbers are words. A write
  changes the cell at its address and no other; clearing leaves zeros; loading an image checks
  every number before it stores one. So the numbers of a memory stay in the range of words as
  long as only such numbers are written (`Memory.Ranged`).
-/
namespace DecimalMachine.Memory

/-! ## Reads -/

theorem holds_iff {m : Memory} {a : Int} : m.holds a = true ↔ 0 ≤ a ∧ a < m.size := by
  simp only [holds, Bool.and_eq_true, decide_eq_true_eq]

theorem read?_natCast (m : Memory) (a : Nat) : m.read? (a : Int) = m.cells[a]? := by
  unfold read?
  rw [if_pos (Int.natCast_nonneg a), Int.toNat_natCast]

theorem read?_eq_none_iff {m : Memory} {a : Int} : m.read? a = none ↔ m.holds a = false := by
  unfold read? holds size
  split
  · rw [Array.getElem?_eq_none_iff]
    simp only [Bool.and_eq_false_iff, decide_eq_false_iff_not]
    omega
  · simp only [Bool.and_eq_false_iff, decide_eq_false_iff_not, true_iff]
    omega

theorem holds_of_read? {m : Memory} {a : Int} {c : Cell} (h : m.read? a = some c) :
    m.holds a = true := by
  cases hn : m.holds a with
  | true => rfl
  | false => rw [← read?_eq_none_iff, h] at hn; cases hn

theorem exists_read? {m : Memory} {a : Int} (h : m.holds a = true) : ∃ c, m.read? a = some c := by
  cases hc : m.read? a with
  | some c => exact ⟨c, rfl⟩
  | none => rw [read?_eq_none_iff, h] at hc; cases hc

theorem mem_of_read? {m : Memory} {a : Int} {c : Cell} (h : m.read? a = some c) :
    c ∈ m.cells := by
  unfold read? at h
  split at h
  · exact Array.mem_of_getElem? h
  · cases h

theorem read?_set (m : Memory) (a b : Int) (c : Cell) :
    (m.set a c).read? b = if a = b ∧ m.holds a = true then some c else m.read? b := by
  simp only [holds_iff]
  unfold set read? size
  by_cases ha : 0 ≤ a
  · by_cases hb : 0 ≤ b
    · have e : a.toNat = b.toNat ↔ a = b := by omega
      have hs : a.toNat < m.cells.size ↔ a < m.cells.size := by omega
      simp only [ha, hb, if_true, true_and, Array.getElem?_setIfInBounds, e]
      by_cases hab : a = b
      · subst hab
        by_cases hlt : a < m.cells.size
        · simp [hlt, hs]
        · simp [hlt, hs]
      · simp [hab]
    · have hab : ¬ a = b := by omega
      simp [hb, hab]
  · simp [ha]

/-- A write leaves every other cell alone. -/
theorem read?_set_of_ne {m : Memory} {a b : Int} (c : Cell) (h : a ≠ b) :
    (m.set a c).read? b = m.read? b := by
  rw [read?_set, if_neg (fun hab => h hab.1)]

theorem read?_set_self {m : Memory} {a : Int} (c : Cell) (h : m.holds a = true) :
    (m.set a c).read? a = some c := by
  rw [read?_set, if_pos ⟨rfl, h⟩]

theorem read?_zeros {n : Nat} (h : IsMemorySize n) (a : Nat) :
    (zeros n h).read? (a : Int) = if a < n then some .zero else none := by
  rw [read?_natCast]
  exact Array.getElem?_replicate

theorem read?_clear (m : Memory) (a : Nat) :
    m.clear.read? (a : Int) = if a < m.size then some .zero else none := read?_zeros _ _

/-- Which addresses memory has is a matter of its size. -/
theorem holds_congr {m m' : Memory} (h : m.size = m'.size) (a : Int) : m.holds a = m'.holds a := by
  simp only [holds, h]

/-! ## Addresses in errors -/

/-- What could be an index can be written. -/
theorem isWritable_of_lt_indices {a : Int} (h : a.natAbs < Capacity.indices) : Text.IsWritable a :=
  Text.isWritable_of_lt (k := 19) (by decide) (Nat.lt_trans h (by decide))

/-- The address of a cell, or of the end of memory, can be written. -/
theorem isWritable_of_le_size (m : Memory) {a : Int} (h0 : -1 ≤ a) (h : a ≤ m.size) :
    Text.IsWritable a := by
  have hsize := m.size_lt
  have hindices : 1 < Capacity.indices := by decide
  exact isWritable_of_lt_indices (by omega)

theorem isWritable_of_holds {m : Memory} {a : Int} (h : m.holds a = true) : Text.IsWritable a := by
  obtain ⟨h0, h1⟩ := holds_iff.1 h
  exact m.isWritable_of_le_size (by omega) (by omega)

theorem read?_of_not_writable {m : Memory} {a : Int} (h : ¬Text.IsWritable a) : m.read? a = none :=
  read?_eq_none_iff.2 (Bool.eq_false_iff.2 fun hh => h (isWritable_of_holds hh))

theorem outside_of_writable {m : Memory} {a : Int} (h : Text.IsWritable a) :
    m.outside a = .address a m.size := by
  have hlast : Text.IsWritable (m.size - 1) := m.isWritable_of_le_size (by omega) (by omega)
  unfold outside MachineError.ofAddress
  rw [Text.writeNumeral_of_writable h, Text.writeNumeral_of_writable hlast]
  rfl

theorem outside_of_not_writable {m : Memory} {a : Int} (h : ¬Text.IsWritable a) :
    m.outside a = .number .writing := by
  unfold outside MachineError.ofAddress
  rw [Text.writeNumeral_of_not_writable h]
  rfl

theorem isFatal_outside {m : Memory} {a : Int} (h : Text.IsWritable a) :
    (m.outside a).isFatal = true := by
  rw [outside_of_writable h]
  rfl

theorem outside_ne_fault (m : Memory) (a : Int) (r : FaultReport) : m.outside a ≠ .fault r := by
  by_cases h : Text.IsWritable a
  · rw [outside_of_writable h]
    nofun
  · rw [outside_of_not_writable h]
    nofun

theorem outside_eq_address_iff {m : Memory} {a b size : Int} :
    m.outside a = .address b size ↔ Text.IsWritable a ∧ b = a ∧ size = m.size := by
  by_cases h : Text.IsWritable a
  · rw [outside_of_writable h, MachineError.address.injEq, and_iff_right h, eq_comm,
      eq_comm (a := (m.size : Int))]
  · rw [outside_of_not_writable h]
    exact iff_of_false nofun fun hw => h hw.1

/-! ## Storing many cells -/

theorem size_setAll (m : Memory) (start : Nat) (cs : List Cell) :
    (m.setAll start cs).size = m.size := by
  induction cs generalizing m start with
  | nil => rfl
  | cons c cs ih => rw [setAll, ih, size_set]

theorem read?_setAll {m : Memory} {start : Nat} {cs : List Cell}
    (h : start + cs.length ≤ m.size) (a : Nat) :
    (m.setAll start cs).read? (a : Int) =
      if start ≤ a ∧ a < start + cs.length then cs[a - start]? else m.read? (a : Int) := by
  induction cs generalizing m start with
  | nil =>
    have : ¬ (start ≤ a ∧ a < start + ([] : List Cell).length) := by
      simp only [List.length_nil]; omega
    rw [if_neg this, setAll]
  | cons c cs ih =>
    rw [List.length_cons] at h
    have hheld : m.holds start = true := holds_iff.2 ⟨by omega, by omega⟩
    rw [setAll, ih (by rw [size_set]; omega)]
    by_cases ha : a = start
    · subst ha
      have h1 : ¬ (a + 1 ≤ a ∧ a < a + 1 + cs.length) := by omega
      have h2 : a ≤ a ∧ a < a + (c :: cs).length := by simp only [List.length_cons]; omega
      rw [if_neg h1, if_pos h2, read?_set_self c hheld]
      simp
    · have hne : (start : Int) ≠ (a : Int) := by omega
      rw [read?_set_of_ne c hne]
      by_cases hin : start + 1 ≤ a ∧ a < start + 1 + cs.length
      · have h2 : start ≤ a ∧ a < start + (c :: cs).length := by
          simp only [List.length_cons]; omega
        have h3 : a - start = (a - (start + 1)) + 1 := by omega
        rw [if_pos hin, if_pos h2, h3, List.getElem?_cons_succ]
      · have h2 : ¬ (start ≤ a ∧ a < start + (c :: cs).length) := by
          simp only [List.length_cons]; omega
        rw [if_neg hin, if_neg h2]

/-! ## Memories of words -/

/-- Every number in memory is in the range of words. -/
def Ranged (m : Memory) : Prop := ∀ n, Cell.num n ∈ m.cells → Word.inRange n = true

theorem Ranged.read? {m : Memory} (h : m.Ranged) {a n : Int} (hn : m.read? a = some (.num n)) :
    Word.inRange n = true := h n (mem_of_read? hn)

theorem ranged_zeros (n : Nat) (h : IsMemorySize n) : (zeros n h).Ranged := by
  intro k hk
  obtain ⟨-, hk⟩ := Array.mem_replicate.1 hk
  cases hk
  rfl

theorem Ranged.clear (m : Memory) : m.clear.Ranged := ranged_zeros _ _

theorem Ranged.set {m : Memory} (h : m.Ranged) (a : Int) {c : Cell}
    (hc : ∀ n, c = .num n → Word.inRange n = true) : (m.set a c).Ranged := by
  intro n hn
  unfold Memory.set at hn
  split at hn
  · rcases Array.mem_or_eq_of_mem_setIfInBounds hn with hn | hn
    · exact h n hn
    · exact hc n hn.symm
  · exact h n hn

theorem Ranged.setAll {m : Memory} (h : m.Ranged) (start : Nat) {cs : List Cell}
    (hcs : ∀ n, Cell.num n ∈ cs → Word.inRange n = true) : (m.setAll start cs).Ranged := by
  induction cs generalizing m start with
  | nil => exact h
  | cons c cs ih =>
    refine ih (h.set _ ?_) _ (fun n hn => hcs n (List.mem_cons_of_mem _ hn))
    intro n hn
    exact hcs n (hn ▸ List.mem_cons_self)

end DecimalMachine.Memory
