import DecimalMachine.Proofs.Effects
import DecimalMachine.Proofs.FailedCalls
import DecimalMachine.Proofs.LikeRuns
/-
  Unread input: tokens that a run does not come to have no influence on it. A machine with more tokens
  behind those of another one is like it in the sense of a likeness that spares a want of input, and
  so the two run alike (`Unread.run`). What a run takes are the tokens at the front of its input, one
  with each instruction that reads where there is one (`Chain.tokens`).
-/
namespace DecimalMachine

namespace Likeness

/-- The second machine has the tokens `more` behind those of the first. Nothing is said of it once the
    first one has wanted a token that it did not have. -/
def unread (more : List String) : Likeness where
  memory := Eq
  input I I' := I' = I ++ more
  lines := Eq
  spared e := ∃ pc op, e = .fault ⟨.inputExhausted, pc, op⟩
  reads := by rintro M _ rfl a; exact .inl ⟨rfl, fun _ => rfl⟩
  writes := exact.writes
  tokens := by
    rintro I _ rfl
    cases I with
    | nil => exact .inr ⟨rfl, fun pc op => ⟨pc, op, rfl⟩⟩
    | cons t I => exact .inl ⟨rfl, rfl⟩
  appends := exact.appends

theorem unread_widens (more : List String) : (unread more).Widens False := by
  rintro M _ rfl
  exact ⟨Nat.le_refl _, Nat.lt_irrefl _⟩

end Likeness

/-- A token was wanted, and there was none. -/
def Outcome.Exhausted (o : Outcome) : Prop :=
  ∃ pc op, o = .failed (.fault ⟨.inputExhausted, pc, op⟩)

namespace Machine

open Likeness (exact)

variable {m m' : Machine}

/-! ## The tokens that are taken -/

/-- The token that the next instruction takes, whether it can be completed or not. -/
def token? (m : Machine) : Option String :=
  if m.operation? = some .read then m.input.head? else none

/-- Behind an instruction the tokens are those before it without the one that it has taken. -/
theorem input_eq (m : Machine) : m.input = m.token?.toList ++ m.next.input := by
  unfold next token?
  rw [input_cycle]
  split
  · cases m.input <;> rfl
  · rfl

theorem operation?_congr (h : exact.Alike m m') : m.operation? = m'.operation? := by
  have hm : m.memory = m'.memory := h.memory
  unfold operation?
  rw [hm, h.regs]

theorem token?_congr (h : exact.Alike m m') : m.token? = m'.token? := by
  have hi : m.input = m'.input := h.input
  unfold token?
  rw [operation?_congr h, hi]

theorem isSome_token? (m : Machine) :
    m.token?.isSome = (decide (m.operation? = some .read) && !m.input.isEmpty) := by
  unfold token?
  by_cases hr : m.operation? = some .read
  · rw [if_pos hr, decide_eq_true hr]
    cases m.input <;> rfl
  · rw [if_neg hr, decide_eq_false hr]
    rfl

/-- Some cycles take the tokens at the front of the input, in order. -/
theorem Chain.tokens {ms : List Machine} (h : Chain m ms) :
    m.input = ms.filterMap token? ++ (next^[ms.length] m).input := by
  induction ms generalizing m with
  | nil => rfl
  | cons k ms ih =>
    have hk : k.token? = m.token? := token?_congr (h 0 (Nat.succ_pos _))
    have hms : Chain m.next ms := fun i hi => h (i + 1) (Nat.succ_lt_succ hi)
    have hone : (k :: ms).filterMap token? = m.token?.toList ++ ms.filterMap token? := by
      rw [List.filterMap_cons, hk]
      cases m.token? <;> rfl
    rw [hone, List.append_assoc, List.length_cons, Function.iterate_succ_apply, ← ih hms]
    exact m.input_eq

end Machine

namespace Emulator

open Machine Likeness

/-! ## Runs -/

/-- The emulator with other tokens to read. -/
def withInput (e : Emulator) (tokens : List String) : Emulator :=
  e.modify fun m => { m with input := tokens }

/-- The second emulator has the tokens `more` behind those of the first, and is the same otherwise. -/
structure Unread (more : List String) (e e' : Emulator) : Prop where
  machine : (unread more).Abreast e.machine e'.machine
  breakpoints : e.breakpoints = e'.breakpoints
  image : e.image = e'.image
  limit : e.limit = e'.limit

variable {e e' : Emulator} {more : List String}

theorem unread_withInput (e : Emulator) (tokens more : List String) :
    Unread more (e.withInput tokens) (e.withInput (tokens ++ more)) :=
  ⟨⟨⟨rfl, rfl, rfl, rfl, rfl, rfl, rfl, rfl⟩, rfl⟩, rfl, rfl, rfl⟩

theorem Unread.same (h : Unread more e e') : Same (e.feed more) e' := by
  have ha := h.machine.alike
  have hview : exact.Alike e'.machine (e.feed more).machine :=
    ⟨Eq.symm ha.memory, ha.regs.symm, ha.state.symm, ha.input, ha.output.symm, ha.warnings.symm,
      ha.cycles.symm, Eq.symm ha.written⟩
  exact ⟨view_eq_iff.2 hview, h.machine.resume.symm, h.breakpoints.symm, h.image.symm, h.limit.symm⟩

/-- A run that does not come to want a token goes the same where there are more tokens. -/
theorem Unread.run (h : Unread more e e') (limit : Option Int) (patience : Nat)
    (hno : ¬ (e.run limit patience).2.Exhausted) :
    (e'.run limit patience).2 = (e.run limit patience).2 ∧
      Unread more (e.run limit patience).1 (e'.run limit patience).1 := by
  obtain ⟨ho, ha, hr⟩ := run_exact e limit patience
  obtain ⟨ho', ha', hr'⟩ := run_exact e' limit patience
  unfold runTraced at ho ha hr ho' ha' hr'
  rw [runTraced_result] at ho ha hr ho' ha' hr'
  rw [← h.breakpoints, ← h.limit] at ho' ha' hr'
  have hrun := h.machine.run (unread_widens more) (some (watch e.breakpoints)) ()
    (limit <|> e.limit) patience
  rcases hrun with ⟨_, hf, pc, op, rfl⟩ | ⟨k, -, hw⟩ | ⟨hsame, hend⟩
  · exact absurd ⟨pc, op, ho.trans hf⟩ hno
  · exact absurd hw id
  · refine ⟨ho'.trans (hsame.symm.trans ho.symm), ?_, h.breakpoints, h.image, h.limit⟩
    exact ⟨hend.alike.congr ha ha', hr.trans (hend.resume.trans hr'.symm)⟩

/-- A call that drives the machine takes the tokens at the front of the input, one with each of its
    instructions that reads where there is one. -/
theorem drive_tokens (e : Emulator) {c : Call} (hc : c.drives = true) :
    e.machine.input = (e.attempts c).filterMap token? ++ (e.perform c).1.machine.input ∧
      ((e.attempts c).filterMap token?).length =
        (e.attempts c).countP fun k => decide (k.operation? = some .read) && !k.input.isEmpty := by
  have hinput : (e.perform c).1.machine.input =
      (next^[(e.attempts c).length] e.machine).input := (drive_exact e hc).input
  refine ⟨?_, ?_⟩
  · rw [hinput]
    exact (chain_attempts e c).tokens
  · rw [List.length_filterMap_eq_countP]
    simp only [isSome_token?]

/-- A run that does not fail for want of a token has no use for what waits behind the tokens it takes:
    with more tokens at the end it goes the same, and leaves these behind the others. Whatever comes
    of a run, it takes the tokens at the front, one with each instruction it attempts that reads
    where there is one. -/
theorem run_unread_input (e : Emulator) (tokens more : List String) (limit : Option Int)
    (patience : Nat) :
    let r := (e.withInput tokens).run limit patience
    let r' := (e.withInput (tokens ++ more)).run limit patience
    let tried := (e.withInput tokens).attempts (.run limit patience)
    (¬ r.2.Exhausted → r'.2 = r.2 ∧ Same (r.1.feed more) r'.1) ∧
      ∃ taken, tokens = taken ++ r.1.machine.input ∧ taken = tried.filterMap token? ∧
        taken.length =
          tried.countP fun k => decide (k.operation? = some .read) && !k.input.isEmpty := by
  intro r r' tried
  refine ⟨fun hno => ?_, ?_⟩
  · obtain ⟨ho, hu⟩ := (unread_withInput e tokens more).run limit patience hno
    exact ⟨ho, hu.same⟩
  · obtain ⟨hinput, hlength⟩ := (e.withInput tokens).drive_tokens (c := .run limit patience) rfl
    exact ⟨_, hinput, rfl, hlength⟩

/-- A program that reads the word behind its first, and halts with it. -/
theorem run_unread_input_halt :
    let e := new ⟨#[.num 1001, .num 1000], by decide⟩ [] none
    let r := (e.withInput ["4300"]).run none 9
    let r' := (e.withInput ["4300", "7"]).run none 9
    r.2 = .stopped (.stoppedAt .halted 1 2) ∧ r'.2 = r.2 ∧ Same (r.1.feed ["7"]) r'.1 ∧
      r'.1.machine.input = ["7"] := by
  intro e r r'
  have hr : r.2 = .stopped (.stoppedAt .halted 1 2) := by decide +kernel
  have hno : ¬ r.2.Exhausted := by
    rintro ⟨pc, op, h⟩
    rw [hr] at h
    cases h
  obtain ⟨ho, hs⟩ := (run_unread_input e ["4300"] ["7"] none 9).1 hno
  exact ⟨hr, ho, hs, by decide +kernel⟩

end Emulator

end DecimalMachine
