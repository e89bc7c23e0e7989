import DecimalMachine.Proofs.Attempts
/-
  Like runs: two machines that are alike in the sense of some likeness run alike. A watch is told
  the same by both, every cycle keeps them alike, and so a run of the one ends as a run of the other
  does (`Abreast.run`). There are two exceptions, both of the first machine: it fails with an error
  that the likeness spares, or it comes to the end of its memory where the other one has more.
-/
namespace DecimalMachine

open Machine

namespace Likeness

/-- Like machines that resume at the same address. -/
structure Abreast (L : Likeness) (m m' : Machine) : Prop where
  alike : L.Alike m m'
  resume : m.resume = m'.resume

/-- The second memory is never the smaller one, and only if `wider` is it the larger one. -/
def Widens (L : Likeness) (wider : Prop) : Prop :=
  ∀ {M M' : Memory}, L.memory M M' → M.size ≤ M'.size ∧ (M.size < M'.size → wider)

/-- Machines that are the same but for their notes have the same memory. -/
theorem exact_widens : exact.Widens False := by
  rintro M _ rfl
  exact ⟨Nat.le_refl _, Nat.lt_irrefl _⟩

namespace Abreast

variable {L : Likeness} {m m' : Machine} {wider : Prop} {σ : Type}

theorem setResume (h : L.Abreast m m') (r : Option Int) :
    L.Abreast { m with resume := r } { m' with resume := r } :=
  ⟨{ h.alike with written := h.alike.written }, rfl⟩

theorem note (h : L.Abreast m m') (t t' : Note) : L.Abreast (m.note t) (m'.note t') :=
  ⟨h.alike.note t t', h.resume⟩

theorem stop (h : L.Abreast m m') (reason : StopReason) (cycles : Nat) :
    m.stop reason cycles = m'.stop reason cycles := by
  unfold Machine.stop
  rw [h.alike.regs]

theorem cycle (h : L.Abreast m m') :
    (∃ e, m.cycle.failure = some e ∧ L.spared e) ∨
      m.cycle.failure = m'.cycle.failure ∧ L.Abreast m.cycle.machine m'.cycle.machine := by
  refine h.alike.cycle.imp_right fun ⟨hf, ha⟩ => ⟨hf, ha, ?_⟩
  have hr : m.next.resume = m'.next.resume := by rw [next_resume, next_resume, h.resume]
  exact hr

/-- Where the second machine is past its end, so is the first; the converse fails only where the
    second has more memory, and then it has a cell there. -/
theorem isPastEnd (h : L.Abreast m m') (hL : L.Widens wider) :
    m.isPastEnd = m'.isPastEnd ∨
      m.isPastEnd = true ∧ wider ∧ Text.IsWritable m.regs.pc := by
  obtain ⟨hle, hwider⟩ := hL h.alike.memory
  unfold Machine.isPastEnd
  rw [h.alike.regs]
  by_cases hp : (m.memory.size : Int) ≤ m'.regs.pc
  · by_cases hp' : (m'.memory.size : Int) ≤ m'.regs.pc
    · refine .inl ?_
      rw [decide_eq_true hp, decide_eq_true hp']
    · exact .inr ⟨decide_eq_true hp, hwider (by omega),
        m'.memory.isWritable_of_le_size (by omega) (by omega)⟩
  · refine .inl ?_
    rw [decide_eq_false hp, decide_eq_false (by omega)]

/-- The end of memory is reached alike. -/
theorem reachEnd (h : L.Abreast m m') (k : Nat) :
    (m.reachEnd k).2 = (m'.reachEnd k).2 ∧ L.Abreast (m.reachEnd k).1 (m'.reachEnd k).1 := by
  have hpc : m.regs.pc = m'.regs.pc := congrArg Registers.pc h.alike.regs
  by_cases hw : Text.IsWritable m.regs.pc
  · obtain ⟨note, hr⟩ := reachEnd_of_writable hw k
    obtain ⟨note', hr'⟩ := reachEnd_of_writable (hpc ▸ hw) k
    rw [hr, hr']
    exact ⟨congrArg Outcome.stopped (h.stop _ _), h.note _ _⟩
  · rw [reachEnd_of_not_writable hw, reachEnd_of_not_writable (hpc ▸ hw)]
    exact ⟨rfl, h⟩

/-! ## Watches -/

/-- A watch says the same of both machines, unless it cannot be told of the first. -/
inductive Consents (L : Likeness) : Consent σ → Consent σ → Prop
  | go {k k' : Machine} (memo : σ) (h : L.Abreast k k') : Consents L (.go k memo) (.go k' memo)
  | halt {k k' : Machine} (memo : σ) (h : L.Abreast k k') :
      Consents L (.halt k memo) (.halt k' memo)
  | refuse (e : MachineError) : Consents L (.refuse e) (.refuse e)
  | spared (e : MachineError) (h : L.spared e) (c : Consent σ) : Consents L (.refuse e) c

theorem consult (h : L.Abreast m m') (watch : Watch σ) (first : Bool) (memo : σ) :
    Consents L (Machine.consult watch first memo m) (Machine.consult watch first memo m') := by
  have hpc : m.regs.pc = m'.regs.pc := congrArg Registers.pc h.alike.regs
  unfold Machine.consult
  rw [h.resume, hpc]
  cases first && decide (m'.resume = some m'.regs.pc) with
  | true => exact .go memo (h.setResume none)
  | false =>
    rw [if_neg Bool.false_ne_true, if_neg Bool.false_ne_true]
    unfold Memory.read
    rcases L.reads h.alike.memory m'.regs.pc with ⟨hr, ho⟩ | ⟨hr, hs⟩
    · rw [← hr]
      cases hc : m.memory.read? m'.regs.pc with
      | none =>
        rw [ho hc]
        exact .refuse _
      | some c =>
        dsimp only
        split
        · exact .go _ h
        · exact .halt _ (h.setResume _)
    · rw [hr]
      exact .spared _ hs _

theorem consent (h : L.Abreast m m') (watch : Option (Watch σ)) (first : Bool) (memo : σ) :
    Consents L (Machine.consent watch first memo m) (Machine.consent watch first memo m') := by
  cases watch with
  | none => exact .go memo h
  | some w => exact h.consult w first memo

/-! ## Runs -/

/-- The outcome at the end of what a run may carry out is the same of both machines. -/
def Blind (L : Likeness) (atEnd : Machine → Nat → Outcome) : Prop :=
  ∀ {m m' : Machine}, L.Abreast m m' → ∀ k, atEnd m k = atEnd m' k

/-- The runs end alike, unless the first fails with an error that is spared, or comes to the end of
    its memory; `wider` says that the second has more. -/
def AlikeRuns (L : Likeness) (wider : Prop) (r r' : Run σ) : Prop :=
  (∃ e, r.outcome = .failed e ∧ L.spared e) ∨
    (∃ k, r.outcome = .stopped (r.machine.stop .endOfMemory k) ∧ wider) ∨
    r.outcome = r'.outcome ∧ L.Abreast r.machine r'.machine

theorem runFrom {atEnd : Machine → Nat → Outcome} (hend : Blind L atEnd) (hL : L.Widens wider)
    (h : L.Abreast m m') (watch : Option (Watch σ)) (allowed executed : Nat) (memo : σ) :
    AlikeRuns L wider (Machine.runFrom watch atEnd allowed executed memo m)
      (Machine.runFrom watch atEnd allowed executed memo m') := by
  induction allowed generalizing executed memo m m' with
  | zero =>
    unfold Machine.runFrom
    rcases h.isPastEnd hL with hp | ⟨hp, hwider, hw⟩
    · rw [hp]
      split
      · exact .inr (.inr (h.reachEnd executed))
      · exact .inr (.inr ⟨hend h executed, h⟩)
    · obtain ⟨note, hr⟩ := reachEnd_of_writable hw executed
      rw [hp, if_pos rfl, hr]
      exact .inr (.inl ⟨executed, rfl, hwider⟩)
  | succ allowed ih =>
    unfold Machine.runFrom
    rcases h.isPastEnd hL with hp | ⟨hp, hwider, hw⟩
    · rw [hp]
      split
      · exact .inr (.inr (h.reachEnd executed))
      · have hc := h.consent watch (executed = 0) memo
        revert hc
        dsimp only
        generalize Machine.consent watch (executed = 0) memo m = a
        generalize Machine.consent watch (executed = 0) memo m' = a'
        rintro (⟨memo, hk⟩ | ⟨memo, hk⟩ | e | ⟨e, hs, -⟩)
        · rcases hk.cycle with ⟨e, he, hs⟩ | ⟨hf, ht⟩
          · dsimp only
            rw [he]
            exact .inl ⟨e, rfl, hs⟩
          · rename_i k k'
            dsimp only
            rw [hf]
            cases k'.cycle.failure with
            | some e => exact .inr (.inr ⟨rfl, ht⟩)
            | none =>
              dsimp only
              rw [ht.alike.state, ht.stop]
              split
              · exact .inr (.inr ⟨rfl, ht⟩)
              · exact ih ht (executed + 1) memo
        · exact .inr (.inr ⟨congrArg Outcome.stopped (hk.stop _ _), hk⟩)
        · exact .inr (.inr ⟨rfl, h⟩)
        · exact .inl ⟨e, rfl, hs⟩
    · obtain ⟨note, hr⟩ := reachEnd_of_writable hw executed
      rw [hp, if_pos rfl, hr]
      exact .inr (.inl ⟨executed, rfl, hwider⟩)

/-- Machines that are abreast run alike. -/
theorem run (hL : L.Widens wider) (h : L.Abreast m m') (watch : Option (Watch σ)) (memo : σ)
    (limit : Option Int) (patience : Nat) :
    AlikeRuns L wider (Machine.run watch memo limit patience m)
      (Machine.run watch memo limit patience m') := by
  unfold Machine.run
  rw [h.alike.isRunning, h.stop]
  split
  · exact .inr (.inr ⟨rfl, h⟩)
  · cases limit with
    | some n => exact h.runFrom (fun ht k => congrArg Outcome.stopped (ht.stop _ k)) hL ..
    | none => exact h.runFrom (fun _ _ => rfl) hL ..

end Abreast

end Likeness

end DecimalMachine
