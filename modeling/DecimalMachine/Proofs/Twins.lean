import DecimalMachine.Proofs.FailedCalls
import DecimalMachine.Proofs.LikeRuns
/-
  Twins: two emulators that are the same but for the notes of their machines. Nothing looks at a note,
  so every call is answered alike by both and leaves them the same (`Same.perform`); they stay
  together over any session (`Same.performAll`). That they run alike is a case of the runs of like
  machines: where nothing but notes differs, nothing is spared.
-/
namespace DecimalMachine

open Likeness

namespace Machine

/-- The machines are the same but for their notes. -/
structure Twin (m m' : Machine) : Prop where
  alike : exact.Alike m m'
  resume : m.resume = m'.resume

namespace Twin

variable {m m' : Machine}

theorem memory (h : m.Twin m') : m.memory = m'.memory := h.alike.memory

theorem abreast (h : m.Twin m') : exact.Abreast m m' := ⟨h.alike, h.resume⟩

theorem of_abreast (h : exact.Abreast m m') : m.Twin m' := ⟨h.alike, h.resume⟩

theorem setResume (h : m.Twin m') (r : Option Int) :
    Twin { m with resume := r } { m' with resume := r } := of_abreast (h.abreast.setResume r)

theorem note (h : m.Twin m') (t t' : Note) : (m.note t).Twin (m'.note t') :=
  of_abreast (h.abreast.note t t')

theorem cycle (h : m.Twin m') :
    m.cycle.failure = m'.cycle.failure ∧ m.cycle.machine.Twin m'.cycle.machine := by
  rcases h.abreast.cycle with ⟨_, -, hs⟩ | ⟨hf, ha⟩
  · exact absurd hs id
  · exact ⟨hf, of_abreast ha⟩

/-! ## Steps and runs -/

theorem step (h : m.Twin m') : m.step.2 = m'.step.2 ∧ m.step.1.Twin m'.step.1 := by
  unfold Machine.step
  rw [h.alike.isRunning, h.alike.isPastEnd, h.abreast.stop .notRunning,
    h.abreast.stop .endOfMemory]
  split
  · exact ⟨rfl, h⟩
  · split
    · exact ⟨rfl, h⟩
    · obtain ⟨hf, ht⟩ := (h.setResume none).cycle
      dsimp only
      rw [hf]
      cases ({ m' with resume := none } : Machine).cycle.failure with
      | some e => exact ⟨rfl, ht⟩
      | none =>
        dsimp only
        rw [ht.alike.state, ht.abreast.stop]
        exact ⟨rfl, ht⟩

theorem run (h : m.Twin m') {σ : Type} (watch : Option (Watch σ)) (memo : σ)
    (limit : Option Int) (patience : Nat) :
    (Machine.run watch memo limit patience m).outcome =
        (Machine.run watch memo limit patience m').outcome ∧
      (Machine.run watch memo limit patience m).machine.Twin
        (Machine.run watch memo limit patience m').machine := by
  rcases h.abreast.run exact_widens watch memo limit patience with
    ⟨e, -, hs⟩ | ⟨k, -, hw⟩ | ⟨ho, ha⟩
  · exact absurd hs id
  · exact absurd hw id
  · exact ⟨ho, of_abreast ha⟩

end Twin

end Machine

namespace Emulator

open Machine

variable {e e' : Emulator}

theorem Same.refl (e : Emulator) : Same e e := ⟨rfl, rfl, rfl, rfl, rfl⟩

theorem Same.twin (h : Same e e') : e.machine.Twin e'.machine :=
  ⟨view_eq_iff.1 h.view.symm, h.resume.symm⟩

/-- Machines that are the same but for their notes, in two emulators that are the same. -/
theorem Same.setMachine (h : Same e e') {k k' : Machine} (ht : k.Twin k') :
    Same { e with machine := k } { e' with machine := k' } :=
  ⟨(view_eq_iff.2 ht.alike).symm, ht.resume.symm, h.breakpoints, h.image, h.limit⟩

/-! ## Calls -/

theorem Same.load (h : Same e e') (i : Image) :
    (e.load i).2 = (e'.load i).2 ∧ Same (e.load i).1 (e'.load i).1 := by
  have ha := h.twin.alike
  have hm : e.machine.memory.clear = e'.machine.memory.clear := congrArg Memory.clear ha.memory
  rcases hi : i.loadOver e.machine.memory.clear with ⟨memory, err | note⟩
  · rw [load_of_refused hi, load_of_refused (hm ▸ hi)]
    have hleft : Twin { e.machine with memory } { e'.machine with memory } :=
      ⟨{ ha with memory := rfl, written := ha.written }, h.twin.resume⟩
    exact ⟨rfl, h.setMachine hleft⟩
  · have hi : i.loadInto e.machine.memory.clear = .ok memory := Image.loadInto_eq_ok.2 ⟨note, hi⟩
    obtain ⟨k, hload, hk, hr⟩ := load_of_loadInto hi
    obtain ⟨k', hload', hk', hr'⟩ := load_of_loadInto (hm ▸ hi)
    rw [hload, hload']
    have hreset : exact.Alike ({ e.machine with memory }.reset i.origin)
        ({ e'.machine with memory }.reset i.origin) :=
      ⟨rfl, rfl, rfl, ha.input, rfl, rfl, rfl, ha.written⟩
    have ht : k.Twin k' := ⟨hk.trans (hreset.trans hk'.symm), hr.trans hr'.symm⟩
    exact ⟨rfl, { h.setMachine ht with image := rfl }⟩

theorem Same.loadText (h : Same e e') (text : String) :
    (e.loadText text).2 = (e'.loadText text).2 ∧ Same (e.loadText text).1 (e'.loadText text).1 := by
  have hm : e.machine.memory = e'.machine.memory := h.twin.memory
  unfold Emulator.loadText
  rw [hm]
  dsimp only
  generalize Image.parse text (some e'.machine.memory.size) = parsed
  have hnotes : Same (e.modify (addNotes · parsed.notes)) (e'.modify (addNotes · parsed.notes)) := by
    obtain ⟨ha, hr⟩ := addNotes_exact e.machine parsed.notes
    obtain ⟨ha', hr'⟩ := addNotes_exact e'.machine parsed.notes
    exact h.setMachine ⟨ha.trans (h.twin.alike.trans ha'.symm),
      hr.trans (h.twin.resume.trans hr'.symm)⟩
  cases parsed.result with
  | error err => exact ⟨rfl, hnotes⟩
  | ok i => exact hnotes.load i

theorem Same.reset (h : Same e e') : e.reset.2 = e'.reset.2 ∧ Same e.reset.1 e'.reset.1 := by
  unfold Emulator.reset
  rw [h.image]
  cases e.image with
  | some i => exact h.load i
  | none =>
    have ha := h.twin.alike
    refine ⟨rfl, h.setMachine ⟨⟨congrArg Memory.clear ha.memory, rfl, rfl, ha.input, rfl, rfl, rfl,
      ha.written⟩, rfl⟩⟩

theorem Same.step (h : Same e e') : e.step.2 = e'.step.2 ∧ Same e.step.1 e'.step.1 := by
  obtain ⟨ho, ht⟩ := h.twin.step
  exact ⟨ho, h.setMachine ht⟩

/-- The machine of a run, with the note of how the run stopped. -/
def stopNoted (r : Run Unit) : Machine :=
  match r.outcome with
  | .stopped event => r.machine.debug s!"Stopped: {event.render}"
  | _ => r.machine

theorem Same.run (h : Same e e') (limit : Option Int) (patience : Nat) :
    (e.run limit patience).2 = (e'.run limit patience).2 ∧
      Same (e.run limit patience).1 (e'.run limit patience).1 := by
  let r := Machine.run (some (watch e.breakpoints)) () (limit <|> e.limit) patience e.machine
  let r' := Machine.run (some (watch e'.breakpoints)) () (limit <|> e'.limit) patience e'.machine
  have hrun : r.outcome = r'.outcome ∧ r.machine.Twin r'.machine := by
    simp only [r, r', h.breakpoints, h.limit]
    exact h.twin.run ..
  have heq : e.run limit patience = ({ e with machine := stopNoted r }, r.outcome) := rfl
  have heq' : e'.run limit patience = ({ e' with machine := stopNoted r' }, r'.outcome) := rfl
  rw [heq, heq']
  refine ⟨hrun.1, h.setMachine ?_⟩
  unfold stopNoted
  rw [hrun.1]
  cases r'.outcome with
  | stopped event => exact hrun.2.note _ _
  | _ => exact hrun.2

theorem Same.feed (h : Same e e') (tokens : List String) :
    Same (e.feed tokens) (e'.feed tokens) := by
  have ha := h.twin.alike
  exact h.setMachine ⟨{ ha with input := congrArg (· ++ tokens) ha.input, written := ha.written },
    h.twin.resume⟩

/-- Both emulators answer a call alike, and it leaves them the same. -/
theorem Same.perform (h : Same e e') (c : Call) :
    (e.perform c).2 = (e'.perform c).2 ∧ Same (e.perform c).1 (e'.perform c).1 := by
  cases c with
  | load i =>
    obtain ⟨hr, hs⟩ := h.load i
    exact ⟨congrArg Reply.ofLoad hr, hs⟩
  | loadFile content =>
    cases content with
    | none => exact ⟨rfl, h⟩
    | some text =>
      obtain ⟨hr, hs⟩ := h.loadText text
      exact ⟨congrArg Reply.ofLoad hr, hs⟩
  | reset =>
    obtain ⟨hr, hs⟩ := h.reset
    exact ⟨congrArg Reply.ofLoad hr, hs⟩
  | step =>
    obtain ⟨hr, hs⟩ := h.step
    exact ⟨congrArg Reply.went hr, hs⟩
  | run limit patience =>
    obtain ⟨hr, hs⟩ := h.run limit patience
    exact ⟨congrArg Reply.went hr, hs⟩
  | addBreakpoint a =>
    exact ⟨rfl, { h with breakpoints := congrArg (insertAscending a) h.breakpoints }⟩
  | removeBreakpoint a =>
    exact ⟨rfl, { h with breakpoints := congrArg (List.filter (· ≠ a)) h.breakpoints }⟩
  | clearBreakpoints => exact ⟨rfl, { h with breakpoints := rfl }⟩
  | feed tokens => exact ⟨rfl, h.feed tokens⟩

/-! ## Sessions -/

/-- The answers to some calls. -/
def replies (e : Emulator) (cs : List Call) : List Reply := (e.history cs).map Record.reply

theorem Same.performAll (h : Same e e') (cs : List Call) :
    e.replies cs = e'.replies cs ∧ Same (e.performAll cs) (e'.performAll cs) := by
  induction cs generalizing e e' with
  | nil => exact ⟨rfl, h⟩
  | cons c cs ih =>
    obtain ⟨hreply, hs⟩ := h.perform c
    obtain ⟨hrest, hall⟩ := ih hs
    refine ⟨?_, hall⟩
    have hcons : ∀ e : Emulator, e.replies (c :: cs) =
      (e.perform c).2 :: (e.perform c).1.replies cs := fun _ => rfl
    rw [hcons, hcons, hreply, hrest]

end Emulator

end DecimalMachine
