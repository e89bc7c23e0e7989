import DecimalMachine.Proofs.Calls
import DecimalMachine.Proofs.LikeRuns
import DecimalMachine.Proofs.Loading
/-
  Memory size: what is the same in a memory of more cells. A roomier memory holds the same where the
  smaller one has cells and zero behind them. That is a likeness that spares addresses outside
  memory, so a run that never leaves the smaller memory goes the same in the larger one
  (`run_in_roomier_memory`).
-/
namespace DecimalMachine

namespace Memory

/-- The second memory goes on with zeros where the first one ends. -/
structure Roomier (M M' : Memory) : Prop where
  size : M.size ≤ M'.size
  same : ∀ a, M.holds a = true → M'.read? a = M.read? a
  rest : ∀ a, M.holds a = false → M'.holds a = true → M'.read? a = some .zero

variable {M M' : Memory}

theorem Roomier.holds (h : M.Roomier M') {a : Int} (ha : M.holds a = true) : M'.holds a = true := by
  have hsize := h.size
  rw [holds_iff] at ha ⊢
  omega

theorem Roomier.set (h : M.Roomier M') {a : Int} (c : Cell) (ha : M.holds a = true) :
    (M.set a c).Roomier (M'.set a c) where
  size := by
    rw [size_set, size_set]
    exact h.size
  same b hb := by
    have hb' : M.holds b = true := by
      rw [holds_iff, size_set] at hb
      exact holds_iff.2 hb
    rw [read?_set, read?_set, h.holds ha, ha, h.same b hb']
  rest b hb hb' := by
    have hsize : ∀ (N : Memory) (c : Cell), (N.set a c).holds b = N.holds b := fun N c => by
      unfold Memory.holds
      rw [size_set]
    rw [hsize] at hb hb'
    have hne : a ≠ b := by
      rintro rfl
      rw [ha] at hb
      cases hb
    rw [read?_set_of_ne c hne, h.rest b hb hb']

theorem Roomier.setAll (h : M.Roomier M') {start : Nat} {cs : List Cell}
    (hl : start + cs.length ≤ M.size) : (M.setAll start cs).Roomier (M'.setAll start cs) := by
  induction cs generalizing M M' start with
  | nil => exact h
  | cons c cs ih =>
    rw [List.length_cons] at hl
    refine ih (h.set c (holds_iff.2 ⟨by omega, by omega⟩)) ?_
    rw [size_set]
    omega

theorem roomier_zeros {size size' : Nat} (h : IsMemorySize size) (h' : IsMemorySize size')
    (hle : size ≤ size') :
    (zeros size h).Roomier (zeros size' h') where
  size := by
    rw [size_zeros, size_zeros]
    exact hle
  same a ha := by
    obtain ⟨h0, h1⟩ := holds_iff.1 ha
    rw [size_zeros] at h1
    lift a to Nat using h0
    rw [read?_zeros, read?_zeros, if_pos (by omega), if_pos (by omega)]
  rest a _ ha := by
    obtain ⟨h0, h1⟩ := holds_iff.1 ha
    rw [size_zeros] at h1
    lift a to Nat using h0
    rw [read?_zeros, if_pos (by omega)]

theorem Roomier.clear (h : M.Roomier M') : M.clear.Roomier M'.clear :=
  roomier_zeros M.sized M'.sized h.size

end Memory

namespace Likeness

/-- The second machine has a roomier memory. Nothing is said of it once the first one has failed
    outside its memory. -/
def roomier : Likeness where
  memory := Memory.Roomier
  input := Eq
  lines := Eq
  spared e := ∃ a size, e = .address a size
  reads {M M'} h a := by
    cases ha : M.holds a with
    | true =>
      obtain ⟨c, hc⟩ := Memory.exists_read? ha
      refine .inl ⟨(h.same a ha).symm, fun hn => ?_⟩
      rw [hc] at hn
      cases hn
    | false =>
      have hn := Memory.read?_eq_none_iff.2 ha
      by_cases hw : Text.IsWritable a
      · exact .inr ⟨hn, a, M.size, Memory.outside_of_writable hw⟩
      · refine .inl ⟨hn.trans (Memory.read?_of_not_writable hw).symm, fun _ => ?_⟩
        rw [Memory.outside_of_not_writable hw, Memory.outside_of_not_writable hw]
  writes h a c ha := h.set c ha
  tokens := by rintro I _ rfl; exact .inl ⟨rfl, rfl⟩
  appends := exact.appends

theorem roomier_widens : roomier.Widens True := fun h => ⟨h.size, fun _ => trivial⟩

end Likeness

/-- The machine has neither come to the end of memory nor failed outside it. -/
def Outcome.Inside : Outcome → Prop
  | .stopped event => event.reason ≠ .endOfMemory
  | .failed e => ∀ a size, e ≠ .address a size
  | .unfinished => True

theorem Outcome.inside_of_stopped {o : Outcome} {event : StopEvent} (h : o = .stopped event)
    (hr : event.reason ≠ .endOfMemory) : o.Inside := by
  rw [h]
  exact hr

namespace Emulator

open Machine Likeness

/-- The second emulator has a roomier memory, and is the same otherwise. -/
structure Roomier (e e' : Emulator) : Prop where
  machine : roomier.Abreast e.machine e'.machine
  breakpoints : e.breakpoints = e'.breakpoints
  limit : e.limit = e'.limit

variable {e e' : Emulator} {i : Image}

theorem roomier_new {M M' : Memory} (h : M.Roomier M') (input : List String)
    (limit : Option Int) : (new M input limit).Roomier (new M' input limit) :=
  ⟨⟨⟨h, rfl, rfl, rfl, rfl, rfl, rfl, rfl⟩, rfl⟩, rfl, rfl⟩

/-- An image that loads into a memory loads into a roomier one. -/
theorem Roomier.load (h : e.Roomier e') (hload : (e.load i).2 = none) :
    (e'.load i).2 = none ∧ (e.load i).1.Roomier (e'.load i).1 := by
  have hm : e.machine.memory.clear.Roomier e'.machine.memory.clear := h.machine.alike.memory.clear
  obtain ⟨memory, hi⟩ := loadInto_of_load hload
  obtain ⟨hw, hroom, cells, hread, hranged, rfl⟩ := Image.loadInto_eq_ok_iff.1 hi
  have hi' : i.loadInto e'.machine.memory.clear = .ok (e'.machine.memory.clear.setAll 0 cells) :=
    Image.loadInto_eq_ok_iff.2 ⟨hw, Nat.le_trans hroom hm.size, cells, hread, hranged, rfl⟩
  have hfit : 0 + cells.length ≤ e.machine.memory.clear.size := by
    rw [← hread.length_eq]
    omega
  obtain ⟨k, hk, hsame, hr⟩ := load_of_loadInto hi
  obtain ⟨k', hk', hsame', hr'⟩ := load_of_loadInto hi'
  rw [hk, hk']
  have halike : roomier.Alike
      ({ e.machine with memory := e.machine.memory.clear.setAll 0 cells }.reset i.origin)
      ({ e'.machine with memory := e'.machine.memory.clear.setAll 0 cells }.reset i.origin) :=
    ⟨hm.setAll hfit, rfl, rfl, h.machine.alike.input, rfl, rfl, rfl, h.machine.alike.written⟩
  exact ⟨rfl, ⟨halike.congr hsame hsame', hr.trans hr'.symm⟩, h.breakpoints, h.limit⟩

/-- What a run shows but for its memory: how it ends, and what it leaves of the machine. -/
structure SameRun (r r' : Emulator × Outcome) : Prop where
  outcome : r.2 = r'.2
  regs : r.1.machine.regs = r'.1.machine.regs
  state : r.1.machine.state = r'.1.machine.state
  input : r.1.machine.input = r'.1.machine.input
  output : r.1.machine.output = r'.1.machine.output
  warnings : r.1.machine.warnings = r'.1.machine.warnings
  cycles : r.1.machine.cycles = r'.1.machine.cycles
  written : r.1.machine.written = r'.1.machine.written

/-- A run that stays inside its memory goes the same in a roomier one. -/
theorem Roomier.run (h : e.Roomier e') {n : Option Int} {patience : Nat}
    (hin : (e.run n patience).2.Inside) :
    SameRun (e.run n patience) (e'.run n patience) ∧
      (e.run n patience).1.machine.memory.Roomier (e'.run n patience).1.machine.memory := by
  obtain ⟨ho, ha, -⟩ := run_exact e n patience
  obtain ⟨ho', ha', -⟩ := run_exact e' n patience
  unfold runTraced at ho ha ho' ha'
  rw [runTraced_result] at ho ha ho' ha'
  rw [ho] at hin
  have hrun := h.machine.run roomier_widens (some (watch e.breakpoints)) () (n <|> e.limit) patience
  rcases hrun with ⟨_, hf, a, size, rfl⟩ | ⟨k, hs, -⟩ | ⟨hsame, hend⟩
  · rw [hf] at hin
    exact absurd rfl (hin a size)
  · rw [hs] at hin
    exact absurd rfl hin
  · rw [← h.breakpoints, ← h.limit] at ho' ha'
    have halike := hend.alike.congr ha ha'
    exact ⟨⟨ho.trans (hsame.trans ho'.symm), halike.regs, halike.state, halike.input,
      halike.output, halike.warnings, halike.cycles, halike.written⟩, halike.memory⟩

theorem size_loaded_run (e : Emulator) (i : Image) (n : Option Int) (patience : Nat) :
    ((e.load i).1.run n patience).1.machine.memory.size = e.machine.memory.size :=
  (size_perform (e.load i).1 (.run n patience)).trans (size_perform e (.load i))

/-- An image that loads into a memory loads into any larger one. As long as a run stays inside the
    smaller memory, the same run in the larger one ends alike and leaves the same, and the cells
    that the smaller one does not have are zero. -/
theorem run_in_roomier_memory {size size' : Nat} (h : IsMemorySize size) (h' : IsMemorySize size')
    (hle : size ≤ size') (i : Image) (input : List String) (limit n : Option Int) (patience : Nat)
    (hload : ((new (.zeros size h) input limit).load i).2 = none) :
    let e := new (.zeros size h) input limit
    let e' := new (.zeros size' h') input limit
    let r := (e.load i).1.run n patience
    let r' := (e'.load i).1.run n patience
    (e'.load i).2 = none ∧
      (r.2.Inside →
        SameRun r r' ∧
          (∀ a < (size : Int), r'.1.machine.memory.read? a = r.1.machine.memory.read? a) ∧
          ∀ a < (size' : Int), size ≤ a → r'.1.machine.memory.read? a = some .zero) := by
  intro e e' r r'
  have hnew : e.Roomier e' := roomier_new (Memory.roomier_zeros h _ hle) input limit
  obtain ⟨hload', hloaded⟩ := hnew.load hload
  refine ⟨hload', fun hin => ?_⟩
  obtain ⟨hsame, hmem⟩ := hloaded.run hin
  have hs : r.1.machine.memory.size = size :=
    (size_loaded_run e i n patience).trans (Memory.size_zeros size h)
  have hs' : r'.1.machine.memory.size = size' :=
    (size_loaded_run e' i n patience).trans (Memory.size_zeros size' h')
  have hiff : ∀ a, r.1.machine.memory.holds a = true ↔ 0 ≤ a ∧ a < size := fun a => by
    rw [Memory.holds_iff, hs]
  refine ⟨hsame, fun a ha => ?_, fun a ha' ha => ?_⟩
  · by_cases h0 : 0 ≤ a
    · exact hmem.same a ((hiff a).2 ⟨h0, ha⟩)
    · unfold Memory.read?
      rw [if_neg h0, if_neg h0]
  · have hout : r.1.machine.memory.holds a = false := by
      rw [← Bool.not_eq_true, hiff]
      omega
    refine hmem.rest a hout (Memory.holds_iff.2 ⟨by omega, ?_⟩)
    rw [hs']
    exact ha'

/-- A program that reads a word over its own code and halts there, in three cells and in five. -/
theorem run_in_roomier_memory_overwritten :
    let i : Image := ⟨["1002", "1102", "0000"], 0, .empty⟩
    let r := ((new (.zeros 3 (by decide)) ["4300", "7"] none).load i).1.run (some 9) 0
    let r' := ((new (.zeros 5 (by decide)) ["4300", "7"] none).load i).1.run (some 9) 0
    r.2 = .stopped (.stoppedAt .halted 2 3) ∧ SameRun r r' ∧
      r'.1.machine.memory.read? 2 = r.1.machine.memory.read? 2 ∧
      r'.1.machine.memory.read? 4 = some .zero := by
  have hrun := run_in_roomier_memory (by decide : IsMemorySize 3) (by decide : IsMemorySize 5) (by decide)
    ⟨["1002", "1102", "0000"], 0, .empty⟩ ["4300", "7"] none (some 9) 0 (by decide +kernel)
  have hout : (((new (.zeros 3 (by decide)) ["4300", "7"] none).load
      ⟨["1002", "1102", "0000"], 0, .empty⟩).1.run (some 9) 0).2 =
        .stopped (.stoppedAt .halted 2 3) := by
    decide +kernel
  obtain ⟨hsame, hlow, hhigh⟩ := hrun.2 (Outcome.inside_of_stopped hout nofun)
  exact ⟨hout, hsame, hlow 2 (by decide), hhigh 4 (by decide) (by decide)⟩

end Emulator

end DecimalMachine
