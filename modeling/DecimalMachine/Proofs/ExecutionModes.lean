import DecimalMachine.Execution
import DecimalMachine.Proofs.Schedule
/-
  Execution modes: running a program at a stretch, and stepping through it. A step carries out the
  instruction that a run would (`Emulator.step_fate`), and what it writes is shown before the next
  one (`Shows.step`); so stepping ends where the machine comes to an end by itself (`steps_ends`). A
  run at a stretch ends there too, unless its limit comes first (`straight_ends`). Stepping does not
  look at the limit: it keeps to it just when the program ends within it (`execution_modes`).
-/
namespace DecimalMachine

open Machine Likeness

/-! ## Machines whose lines have been taken away -/

namespace Likeness

/-- The machines are the same, but the first one has written some lines before all that the second
    one has written. -/
def preceded (ls : List String) : Likeness where
  memory := Eq
  input := Eq
  lines w w' := w = ls ++ w'
  spared _ := False
  reads := exact.reads
  writes := exact.writes
  tokens := exact.tokens
  appends := by rintro _ w rfl more; exact List.append_assoc ls w more

variable {ls : List String} {m k : Machine}

theorem Alike.preceded_nil (h : exact.Alike m k) : (preceded []).Alike m k :=
  { h with memory := h.memory, input := h.input, written := h.written }

theorem preceded_isPastEnd (h : (preceded ls).Alike m k) : m.isPastEnd = k.isPastEnd := by
  have hm : m.memory = k.memory := h.memory
  unfold isPastEnd
  rw [hm, h.regs]

/-- What a machine makes of itself does not depend on what has been taken away from it. -/
theorem preceded_fate (h : (preceded ls).Alike m k) :
    m.fate = k.fate ∧ (preceded ls).Alike m.next k.next := by
  obtain ⟨hf, hn⟩ := h.cycle.resolve_left fun ⟨_, _, hs⟩ => hs
  have hn : (preceded ls).Alike m.next k.next := hn
  refine ⟨?_, hn⟩
  unfold fate
  rw [preceded_isPastEnd h, hf, hn.state]

end Likeness

/-! ## What the machine makes of itself -/

namespace Machine

variable {m : Machine}

theorem cycles_of_fates {k : Nat} (h : ∀ i < k, fate (next^[i] m) = none) :
    (next^[k] m).cycles = m.cycles + k := by
  induction k with
  | zero => rfl
  | succ k ih =>
    obtain ⟨hf, -⟩ := of_fate_eq_none (h k (Nat.lt_succ_self k))
    rw [Function.iterate_succ_apply', next_cycles, ih fun i hi => h i (by omega), hf]
    rfl

/-- A program that comes to an end has completed all its instructions but one that fails. -/
theorem cycles_of_fated {passed more : Nat} {ending : Ending} (h : Fated m passed more ending) :
    (next^[passed + more] m).cycles + (if ending.failure?.isSome then 1 else 0) =
      m.cycles + (passed + more) := by
  have hc := cycles_of_fates h.1
  rcases of_fate_eq_some h.2 with ⟨rfl, rfl, -⟩ | ⟨rfl, -, hf, -⟩
  · rw [Nat.add_zero, hc]
    rfl
  · rw [Function.iterate_succ_apply', next_cycles, hc, hf]
    cases ending.failure? with
    | none => rfl
    | some e => rfl

end Machine

namespace Emulator

variable {e : Emulator}

/-- A step carries out the next instruction, and tells what the machine comes to by it. -/
theorem step_fate (hm : e.machine.isRunning = true) (hp : e.machine.isPastEnd = false) :
    exact.Alike e.machine.next e.step.1.machine ∧
      match e.machine.fate with
      | some (more, ending) => more = 1 ∧ ending.isFinal = true ∧ e.step.2.ending = ending
      | none => e.step.2.ending = .stopped .step := by
  obtain ⟨k, o, ht, hk, ho⟩ := stepTraced_of_running hm hp
  rw [step_eq, ht, ← fate_congr hk]
  exact ⟨(cycle_exact hk.symm).2, fate_of_tried (hk.isPastEnd.trans hp) ho⟩

end Emulator

namespace Execution

/-! ## What an execution shows -/

/-- The lines among what is shown that the program has written. -/
def linesOf (shown : Array Display) : List String :=
  shown.toList.filterMap fun
    | .entry (.wrote line) => some line
    | _ => none

theorem linesOf_push_line (shown : Array Display) (s : String) :
    linesOf (shown.push (.line s)) = linesOf shown := by
  simp [linesOf]

/-- What is taken out of the journal is what has been written. -/
theorem linesOf_drain (shown : Array Display) (e : Emulator) :
    linesOf (shown ++ (drain e).2) = linesOf shown ++ e.machine.written := by
  unfold linesOf drain written
  rw [Array.toList_append, List.filterMap_append, Array.toList_map, List.filterMap_map]
  congr 2
  funext entry
  cases entry <;> rfl

/-- How an execution has ended, if anything was done. -/
def ending? (x : Execution) : Option Ending := x.outcome.map Outcome.ending

/-- The error of an execution that has failed. -/
def failure? (x : Execution) : Option MachineError := x.ending?.bind Ending.failure?

/-- How many instructions have been attempted since the program was loaded: those that have been
    completed, and one that has failed. -/
def attempted (x : Execution) : Nat :=
  x.emulator.machine.cycles + if x.failure?.isSome then 1 else 0

/-- The execution has been stopped by the limit. -/
def Limited (x : Execution) : Prop := x.ending? = some (.stopped .cycleLimit)

instance (x : Execution) : Decidable x.Limited := inferInstanceAs (Decidable (_ = _))

/-- The execution has come to an end. -/
def Finished (x : Execution) : Prop := x.ending? ≠ some .unfinished

instance (x : Execution) : Decidable x.Finished := inferInstanceAs (Decidable (_ ≠ _))

theorem finished_of_final {x : Execution} {ending : Ending} (h : x.ending? = some ending)
    (hx : ending.isFinal = true) : x.Finished := by
  unfold Finished
  rw [h]
  rintro ⟨⟩
  cases hx

/-- Both executions have come to an end, with the same machine and the same error if there is one,
    and have shown the same lines. -/
structure SameEnd (x y : Execution) : Prop where
  finished : x.Finished ∧ y.Finished
  view : x.emulator.machine.view = y.emulator.machine.view
  lines : linesOf x.displays = linesOf y.displays
  failure : x.failure? = y.failure?

/-- All that the machine `m` has written has been shown, and `k` is what is left of it. -/
structure Shows (shown : Array Display) (m k : Machine) : Prop where
  alike : (preceded (linesOf shown)).Alike m k
  drained : k.written = []

variable {m : Machine} {e : Emulator} {shown : Array Display} {x y : Execution}

theorem shows_drain (shown : Array Display)
    (h : (preceded (linesOf shown)).Alike m e.machine) :
    Shows (shown ++ (drain e).2) m (drain e).1.machine where
  alike :=
    { h with
      memory := h.memory
      input := h.input
      written := by
        have hw : m.written = linesOf shown ++ e.machine.written := h.written
        show m.written = linesOf (shown ++ (drain e).2) ++ []
        rw [linesOf_drain, List.append_nil, hw] }
  drained := rfl

theorem Shows.push (h : Shows shown m e.machine) (s : String) :
    Shows (shown.push (.line s)) m e.machine := by
  refine ⟨?_, h.drained⟩
  rw [linesOf_push_line]
  exact h.alike

/-- A step leads to the next machine, and what that has written is shown at once. -/
theorem Shows.step (h : Shows shown m e.machine) (hm : m.isRunning = true)
    (hp : m.isPastEnd = false) :
    Shows (shown ++ (drain e.step.1).2) m.next (drain e.step.1).1.machine ∧
      match m.fate with
      | some (more, ending) => more = 1 ∧ ending.isFinal = true ∧ e.step.2.ending = ending
      | none => e.step.2.ending = .stopped .step := by
  have hm' : e.machine.isRunning = true := h.alike.isRunning.symm.trans hm
  have hp' : e.machine.isPastEnd = false := (preceded_isPastEnd h.alike).symm.trans hp
  obtain ⟨hf, hn⟩ := preceded_fate h.alike
  obtain ⟨hs, ho⟩ := Emulator.step_fate hm' hp'
  rw [hf]
  exact ⟨shows_drain shown (hn.congr (.refl _) hs.symm), ho⟩

/-! ## Stepping -/

/-- The execution has come to an end that the machine `m` has come to. -/
structure Ended (x : Execution) (m : Machine) (ending : Ending) : Prop where
  shows : Shows x.displays m x.emulator.machine
  failure : x.failure? = ending.failure?
  finished : x.Finished

theorem Ended.same {ending : Ending} (h : x.Ended m ending) (h' : y.Ended m ending) :
    SameEnd x y where
  finished := ⟨h.finished, h'.finished⟩
  view := by
    have ha := h.shows.alike
    have ha' := h'.shows.alike
    exact view_eq_iff.2 ⟨Eq.trans (Eq.symm ha.memory) ha'.memory, ha.regs.symm.trans ha'.regs,
      ha.state.symm.trans ha'.state, Eq.trans (Eq.symm ha.input) ha'.input,
      ha.output.symm.trans ha'.output, ha.warnings.symm.trans ha'.warnings,
      ha.cycles.symm.trans ha'.cycles, h.shows.drained.trans h'.shows.drained.symm⟩
  lines := by
    have hw : m.written = linesOf x.displays ++ x.emulator.machine.written := h.shows.alike.written
    have hw' : m.written = linesOf y.displays ++ y.emulator.machine.written :=
      h'.shows.alike.written
    rw [h.shows.drained, List.append_nil] at hw
    rw [h'.shows.drained, List.append_nil] at hw'
    exact hw.symm.trans hw'
  failure := h.failure.trans h'.failure.symm

/-- A program that comes to an end has been attempted up to there. -/
theorem Ended.attempted {passed more : Nat} {ending : Ending}
    (hf : Fated m passed more ending) (h : x.Ended (next^[passed + more] m) ending) :
    x.attempted = m.cycles + (passed + more) := by
  unfold Execution.attempted
  rw [h.failure, ← h.shows.alike.cycles, cycles_of_fated hf]

/-- As long as nothing comes to an end, every instruction is attempted and completed. -/
theorem attempted_of_fates {k : Nat} (hf : ∀ i < k, fate (next^[i] m) = none)
    (h : Shows x.displays (next^[k] m) x.emulator.machine) (hx : x.failure? = none) :
    x.attempted = m.cycles + k := by
  unfold Execution.attempted
  rw [hx, ← h.alike.cycles, cycles_of_fates hf]
  rfl

theorem steps_succ {last : Option Outcome} {patience : Nat} (hp : e.machine.isPastEnd = false) :
    let shown' := (shown.push (.line "")).push (.line (Dump.all e.machine)) ++ (drain e.step.1).2
    steps shown last (patience + 1) e =
      if e.step.2.ending = .stopped .step then
        steps (shown'.push (.line "")) (some e.step.2) patience (drain e.step.1).1
      else ⟨(drain e.step.1).1, shown', some e.step.2⟩ := by
  intro shown'
  rw [steps, if_neg (by rw [hp]; exact Bool.false_ne_true)]
  dsimp only [shown']
  cases e.step.2 with
  | stopped event =>
    simp only [Outcome.ending, Ending.stopped.injEq]
  | failed err => rfl
  | unfinished => rfl

/-- Stepping has come to the end of the machine `m`, or all patience has been used up. -/
inductive EndsWithin (m : Machine) (patience : Nat) (x : Execution) : Prop
  | ended {passed more : Nat} {ending : Ending} (hlt : passed < patience)
      (hf : Fated m passed more ending) (h : x.Ended (next^[passed + more] m) ending) :
      EndsWithin m patience x
  | unfinished (hf : ∀ i < patience, fate (next^[i] m) = none)
      (h : Shows x.displays (next^[patience] m) x.emulator.machine)
      (hx : x.ending? = some .unfinished) : EndsWithin m patience x

/-- Behind the last cell nothing is done, and the step before has not failed. -/
theorem endsWithin_of_isPastEnd {patience : Nat} {last : Option Outcome}
    (h : Shows shown m e.machine) (hlast : ∀ ending ∈ last.map Outcome.ending,
      ending = .stopped .step) (hp : m.isPastEnd = true) :
    EndsWithin m (patience + 1) ⟨e, shown, last⟩ := by
  have hf : m.fate = some (0, .stopped .endOfMemory) := by
    unfold fate
    rw [if_pos hp]
  refine .ended (Nat.succ_pos _) ⟨nofun, hf⟩ ⟨h, ?_, fun hx => nomatch hlast _ hx⟩
  show (last.map Outcome.ending).bind Ending.failure? = none
  cases hl : last.map Outcome.ending with
  | none => rfl
  | some ending =>
    obtain rfl := hlast ending hl
    rfl

/-- What is stepped from the next machine on is stepped from this one on with one more step. -/
theorem EndsWithin.behind {patience : Nat} (hf : m.fate = none)
    (h : EndsWithin m.next patience x) : EndsWithin m (patience + 1) x := by
  have hk : ∀ i < 1, fate (next^[i] m) = none := by
    intro i hi
    obtain rfl : i = 0 := by omega
    exact hf
  cases h with
  | @ended passed more _ hlt hfated hended =>
    refine .ended (Nat.succ_lt_succ hlt) (hfated.behind hk (.refl _)) ?_
    rw [show passed + 1 + more = passed + more + 1 by omega]
    exact hended
  | unfinished hnone hshows hx =>
    refine .unfinished (fun i hi => ?_) hshows hx
    cases i with
    | zero => exact hf
    | succ i => exact hnone i (Nat.lt_of_succ_lt_succ hi)

/-- Stepping goes on until the machine comes to an end by itself, as long as there is patience. -/
theorem steps_ends {last : Option Outcome} (h : Shows shown m e.machine) (hm : m.isRunning = true)
    (hlast : ∀ ending ∈ last.map Outcome.ending, ending = .stopped .step) (patience : Nat) :
    EndsWithin m patience (steps shown last patience e) := by
  induction patience generalizing shown last e m with
  | zero => exact .unfinished nofun h rfl
  | succ patience ih =>
    have hpast := preceded_isPastEnd h.alike
    cases hp : m.isPastEnd with
    | true =>
      rw [steps, if_pos (hpast.symm.trans hp)]
      exact endsWithin_of_isPastEnd h hlast hp
    | false =>
      obtain ⟨hs, ho⟩ := ((h.push "").push (Dump.all e.machine)).step hm hp
      rw [steps_succ (hpast.symm.trans hp)]
      cases hf : m.fate with
      | none =>
        rw [hf] at ho
        have hrun : m.next.isRunning = true := by
          obtain ⟨hc, hh⟩ := of_fate_eq_none hf
          exact isRunning_next hm hc hh
        have hlast' : ∀ ending ∈ (some e.step.2).map Outcome.ending, ending = .stopped .step := by
          rintro _ ⟨⟩
          exact ho
        rw [if_pos ho]
        exact (ih (hs.push "") hrun hlast').behind hf
      | some r =>
        obtain ⟨more, ending⟩ := r
        rw [hf] at ho
        obtain ⟨rfl, hfinal, rfl⟩ := ho
        have hstep : e.step.2.ending ≠ .stopped .step := by
          intro hstep
          rw [hstep] at hfinal
          cases hfinal
        rw [if_neg hstep]
        exact .ended (Nat.succ_pos _) ⟨nofun, hf⟩ ⟨hs, rfl, finished_of_final rfl hfinal⟩

/-- The same from the start, with all that the journal holds shown first. -/
theorem stepped_ends (hm : e.machine.isRunning = true) (patience : Nat) :
    EndsWithin e.machine patience (run true e patience) := by
  have h := shows_drain #[] (Alike.refl e.machine).preceded_nil
  rw [Array.empty_append] at h
  exact steps_ends h hm (by rintro _ ⟨⟩) patience

/-! ## Running at a stretch -/

/-- A run at a stretch comes to the end that the machine comes to by itself, or does all it may. -/
theorem straight_ends {size : Nat} (hs : e.machine.Sound size) (hm : e.machine.isRunning = true)
    (hb : e.breakpoints = []) (patience : Nat) :
    let x := run false e patience
    let allowed := allowance e.limit patience
    (∃ passed more ending, passed + more ≤ allowed ∧ Fated e.machine passed more ending ∧
      ending.isFinal = true ∧ x.ending? = some ending ∧
      x.Ended (next^[passed + more] e.machine) ending) ∨
    (∀ i < allowed, fate (next^[i] e.machine) = none) ∧
      (next^[allowed] e.machine).isPastEnd = false ∧
      Shows x.displays (next^[allowed] e.machine) x.emulator.machine ∧
      x.ending? = some (lastEnding e.limit) := by
  intro x allowed
  have hclear : e.clearBreakpoints = e := by
    unfold Emulator.clearBreakpoints
    rw [← hb]
  have hshows : ∀ {k : Nat}, exact.Alike (e.run none patience).1.machine (next^[k] e.machine) →
      Shows x.displays (next^[k] e.machine) x.emulator.machine := by
    intro k hk
    have h := shows_drain #[] hk.symm.preceded_nil
    rw [Array.empty_append] at h
    exact h
  have hends := Emulator.plain_run_ends hs hm none patience
  rw [hclear] at hends
  rcases hends with ⟨passed, more, ending, hle, hx, hfated, hend, hk⟩ | ⟨hnone, hp, hend, hk⟩
  · have hout : x.ending? = some ending := congrArg some hend
    have hfailure : x.failure? = ending.failure? := congrArg (·.bind Ending.failure?) hout
    exact .inl ⟨passed, more, ending, hle, hfated, hx, hout, hshows hk, hfailure,
      finished_of_final hout hx⟩
  · exact .inr ⟨hnone, hp, hshows hk, congrArg some hend⟩

/-! ## The two modes -/

/-- Stepping comes to the end of a run at a stretch that has no limit. -/
theorem stepped_unlimited {size : Nat} (hs : e.machine.Sound size)
    (hm : e.machine.isRunning = true) (hb : e.breakpoints = []) {patience : Nat}
    (hf : (run true e patience).Finished) :
    SameEnd (run false { e with limit := none } patience) (run true e patience) := by
  rcases stepped_ends hm patience with ⟨hlt, hfated, hended⟩ | ⟨-, -, hout⟩
  · rcases straight_ends (e := { e with limit := none }) hs hm hb patience with
      ⟨passed', more', ending', -, hfated', -, -, hended'⟩ | ⟨hnone, -⟩
    · obtain ⟨rfl, rfl, rfl⟩ := hfated'.unique hfated
      exact hended'.same hended
    · exact absurd (hfated.le hnone) (Nat.not_le.2 hlt)
  · exact absurd hout hf

/-- Stepping keeps to a limit just when the limit does not stop a run at a stretch. -/
theorem stepped_limited {size : Nat} (hs : e.machine.Sound size)
    (hm : e.machine.isRunning = true) (hb : e.breakpoints = []) (hc : e.machine.cycles = 0)
    {n : Nat} (hl : e.limit = some (n : Int)) {patience : Nat} (hp : n < patience) :
    (run false e patience).attempted ≤ n ∧
      ((run true e patience).attempted ≤ n ↔ ¬ (run false e patience).Limited) ∧
      (¬ (run false e patience).Limited →
        SameEnd (run false e patience) (run true e patience)) := by
  have hstraight := straight_ends hs hm hb patience
  have hallowed : allowance (some (n : Int)) patience = n := rfl
  rw [hl, hallowed] at hstraight
  rcases hstraight with
    ⟨passed, more, ending, hle, hfated, hfinal, hout, hended⟩ | ⟨hnone, hpast, hshows, hout⟩
  · have hnot : ¬ (run false e patience).Limited := by
      intro hlimited
      obtain rfl := Option.some.inj (hout.symm.trans hlimited)
      cases hfinal
    have hstraight := hended.attempted hfated
    rcases stepped_ends hm patience with ⟨-, hfated', hended'⟩ | ⟨hnone, -, -⟩
    · obtain ⟨rfl, rfl, rfl⟩ := hfated.unique hfated'
      have hstepped := hended'.attempted hfated'
      rw [hc, Nat.zero_add] at hstraight hstepped
      exact ⟨Nat.le_trans (Nat.le_of_eq hstraight) hle,
        iff_of_true (Nat.le_trans (Nat.le_of_eq hstepped) hle) hnot, fun _ => hended.same hended'⟩
    · have hbehind := hfated.le hnone
      omega
  · have hstraight := attempted_of_fates hnone hshows (congrArg (·.bind Ending.failure?) hout)
    -- The machine is not at its end here, so stepping attempts one more instruction at least.
    have hstepped : n < (run true e patience).attempted := by
      cases stepped_ends hm patience with
      | @ended passed more ending _ hfated hended =>
        rw [hended.attempted hfated, hc]
        have hge : n ≤ passed := hfated.le hnone
        rcases of_fate_eq_some hfated.2 with ⟨-, -, hp'⟩ | ⟨rfl, -⟩
        · have hne : passed ≠ n := by
            rintro rfl
            rw [hpast] at hp'
            cases hp'
          omega
        · omega
      | unfinished hfates hshows' hout' =>
        rw [attempted_of_fates hfates hshows' (congrArg (·.bind Ending.failure?) hout'), hc]
        omega
    rw [hc, Nat.zero_add] at hstraight
    exact ⟨Nat.le_of_eq hstraight, iff_of_false (Nat.not_le.2 hstepped) (not_not.2 hout),
      fun hnot => absurd hout hnot⟩

end Execution

namespace Emulator

/-- An emulator right after it has been made and told to load an image. -/
theorem load_new (memory : Memory) (input : List String) (limit : Option Int) (i : Image) :
    let e := ((new memory input limit).load i).1
    e.machine.isRunning = true ∧ e.machine.cycles = 0 ∧ e.breakpoints = [] ∧ e.limit = limit := by
  intro e
  rcases hi : i.loadOver (new memory input limit).machine.memory.clear with ⟨memory', err | note⟩
  · have he : e = _ := congrArg Prod.fst (load_of_refused hi)
    rw [he]
    exact ⟨rfl, rfl, rfl, rfl⟩
  · obtain ⟨k, hload, hk, -⟩ := load_of_loadInto (Image.loadInto_eq_ok.2 ⟨note, hi⟩)
    have he : e = _ := congrArg Prod.fst hload
    rw [he]
    exact ⟨hk.isRunning, hk.cycles, rfl, rfl⟩

end Emulator

namespace Execution

/-- A program that is run at a stretch keeps to its limit. Stepped through, it comes to the same end
    if the limit has not stopped it, and goes past the limit otherwise: stepping is running
    without one. -/
theorem execution_modes {text : String} {capacity : Option Int} {i : Image}
    (hi : (Image.parse text capacity).result = .ok i) {size : Nat} (h : IsMemorySize size)
    (input : List String) (n : Nat) {patience : Nat} (hp : n < patience) :
    let e := ((Emulator.new (.zeros size h) input (some n)).load i).1
    let straight := run false e patience
    let stepped := run true e patience
    straight.attempted ≤ n ∧
      (stepped.attempted ≤ n ↔ ¬ straight.Limited) ∧
      (¬ straight.Limited → SameEnd straight stepped) ∧
      (stepped.Finished → SameEnd (run false { e with limit := none } patience) stepped) := by
  intro e straight stepped
  obtain ⟨hm, hc, hb, hl⟩ := Emulator.load_new (.zeros size h) input (some n) i
  have hplaced : ∀ j, Call.load i = .load j → j.Placed := by
    rintro j ⟨⟩
    exact Image.placed_of_parse hi
  have hs := ((Emulator.sound_new size h input (some n)).perform hplaced).machine
  obtain ⟨hle, hiff, hsame⟩ := stepped_limited hs hm hb hc hl hp
  exact ⟨hle, hiff, hsame, stepped_unlimited hs hm hb⟩

/-- A program that halts within its limit. -/
theorem execution_modes_echo :
    let e := ((Emulator.new (.zeros 4 (by decide)) ["12"] (some (3 : Nat))).load Emulator.echo).1
    (run true e 4).attempted ≤ 3 ∧ SameEnd (run false e 4) (run true e 4) ∧
      (run true e 4).emulator.machine.output = #["12"] := by
  have hparse : (Image.parse "0000\n// Instructions\n1000\n1100\n4300" none).result =
      .ok Emulator.echo := rfl
  obtain ⟨-, hiff, hsame, -⟩ :=
    execution_modes hparse (by decide : IsMemorySize 4) ["12"] 3 (by decide : 3 < 4)
  have hnot : ¬ (run false ((Emulator.new (.zeros 4 (by decide)) ["12"]
      (some (3 : Nat))).load Emulator.echo).1 4).Limited := by
    decide +kernel
  exact ⟨hiff.2 hnot, hsame hnot, by decide +kernel⟩

/-- A program of three instructions with a limit of one: stepping carries out all of them. -/
theorem stepping_passes_limit :
    let i : Image := ⟨["2201", "2202", "4300"], 0, .empty⟩
    let e := ((Emulator.new (.zeros 4 (by decide)) [] (some (1 : Nat))).load i).1
    (Image.parse "// Instructions\n2201\n2202\n4300" none).result = .ok i ∧
      ((run false e 9).attempted = 1 ∧ (run false e 9).emulator.machine.regs.accumulator = 1) ∧
      (run true e 9).attempted = 3 ∧ (run true e 9).emulator.machine.regs.accumulator = 2 :=
  ⟨rfl, by decide +kernel⟩

end Execution

end DecimalMachine
