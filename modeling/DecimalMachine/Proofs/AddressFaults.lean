import DecimalMachine.Proofs.Effects
import DecimalMachine.Proofs.Ranges
import DecimalMachine.Proofs.Resumption
/-
  Address faults: which instructions fail because there is no cell at an address. Nothing is assumed
  of the words in memory. An operation that is known has an operand of two digits, so no jump leads
  in front of memory, and a machine whose program counter is not in front of memory fetches every
  instruction from a cell, whatever watch it runs under. What is left is an instruction whose operand
  is an address behind memory (`Beyond`), and in a memory of a hundred cells there is none
  (`address_faults`).
-/
namespace DecimalMachine

theorem Opcode.addressesCell_iff {op : Opcode} : op.addressesCell = true ↔
    op = .read ∨ op = .write ∨ op = .load ∨ op = .store ∨
      op.isArithmetic = true ∧ op.isImmediate = false := by
  cases op <;> decide

namespace Machine

open Likeness (exact)

variable {m : Machine} {σ : Type}

/-! ## One cycle -/

/-- The word at the program counter is one of an operation that addresses a cell, and there is no
    such cell: its address `a` is behind memory. -/
def Beyond (m : Machine) (a : Int) : Prop :=
  ∃ w op, m.memory.read? m.regs.pc = some (.num w) ∧ Opcode.ofCode? (Word.split w).1 = some op ∧
    (op = .read ∨ op = .write ∨ op = .load ∨ op = .store ∨
      op.isArithmetic = true ∧ op.isImmediate = false) ∧
    (Word.split w).2 = a ∧ (m.memory.size : Int) ≤ a

theorem Beyond.lt {a : Int} (h : m.Beyond a) : (m.memory.size : Int) < 100 := by
  obtain ⟨w, -, -, -, -, rfl, hsize⟩ := h
  have hb := Word.split_operand_bounds w
  omega

/-- An instruction that has been fetched and fails outside memory has an operand behind memory. -/
theorem beyond_of_failure {a size : Int} (hpc : m.memory.holds m.regs.pc = true)
    (hf : m.cycle.failure = some (.address a size)) : m.Beyond a ∧ size = m.memory.size := by
  obtain ⟨c, hc⟩ := Memory.exists_read? hpc
  cases c with
  | raw t =>
    rw [cycle_of_raw hc, fail_failure] at hf
    cases hf
  | num w =>
    have hd : (m.fetch w).dispatch.failure = some (.address a size) := by
      rw [cycle_of_num hc] at hf
      split at hf
      · cases hf
      · exact hf
    have hrefused : ∀ {op : Opcode} {e : MachineError}, Opcode.ofCode? (Word.split w).1 = some op →
        Refusal (m.fetch w) op (Word.split w).2 e → e = .address a size →
        m.Beyond a ∧ size = m.memory.size := by
      rintro op _ hop (f | ⟨hcell, hn⟩ | d) he
      · cases he
      · obtain ⟨-, rfl, rfl⟩ := Memory.outside_eq_address_iff.1 he
        have hn : ¬ m.memory.holds (Word.split w).2 = true := Bool.eq_false_iff.1 hn
        rw [Memory.holds_iff] at hn
        have hpos := Word.split_operand_nonneg (Opcode.code_of_ofCode? hop ▸ op.code_pos)
        exact ⟨⟨w, op, hc, hop, Opcode.addressesCell_iff.1 hcell, rfl, by omega⟩, rfl⟩
      · cases he
    have hdispatched := dispatched (m.fetch w)
    revert hd hdispatched
    generalize (m.fetch w).dispatch = r
    intro hd hdispatched
    cases hdispatched with
    | unknown => cases hd
    | unwritten =>
      rw [fail_failure] at hd
      cases hd
    | known hop hcarried =>
      cases hcarried with
      | refused _ he =>
        rw [fail_failure] at hd
        exact hrefused hop he (Option.some.inj hd)
      | refusedToken _ _ he =>
        rw [fail_failure] at hd
        exact hrefused hop he (Option.some.inj hd)
      | _ => cases hd

/-! ## Steps and runs under any watch -/

/-- What can come of asking a watch: the machine is as it was but for the address to resume at, or
    the watch cannot be told of an instruction that is not there. -/
inductive Consented (m : Machine) : Consent σ → Prop
  | go {k : Machine} (memo : σ) (hk : exact.Alike k m) : Consented m (.go k memo)
  | halt {k : Machine} (memo : σ) (hk : exact.Alike k m) : Consented m (.halt k memo)
  | refuse (h : m.memory.holds m.regs.pc = false) :
      Consented m (.refuse (m.memory.outside m.regs.pc))

theorem consented (watch : Option (Watch σ)) (first : Bool) (memo : σ) (m : Machine) :
    Consented m (consent watch first memo m) := by
  cases watch with
  | none => exact .go memo (.refl m)
  | some w =>
    show Consented m (consult w first memo m)
    unfold consult
    split
    · exact .go memo (.setResume m none)
    · unfold Memory.read
      cases hc : m.memory.read? m.regs.pc with
      | none => exact .refuse (Memory.read?_eq_none_iff.1 hc)
      | some c =>
        dsimp only
        split
        · exact .go _ (.refl m)
        · exact .halt _ (.setResume m _)

/-- The ways for a run to fail between instructions: its watch cannot be told of one in front of memory,
    or it has come to the end of memory with a program counter that is too long for the note on it. -/
def Stuck (k : Machine) (err : MachineError) : Prop :=
  k.regs.pc < 0 ∧ err = k.memory.outside k.regs.pc ∨
    ¬Text.IsWritable k.regs.pc ∧ err = .number .writing

theorem Stuck.ne_fault {k : Machine} {err : MachineError} (h : Stuck k err) (r : FaultReport) :
    err ≠ .fault r := by
  rcases h with ⟨-, rfl⟩ | ⟨-, rfl⟩
  · exact Memory.outside_ne_fault _ _ r
  · nofun

theorem stuck_of_reachEnd {m : Machine} {k : Nat} {err : MachineError}
    (h : (m.reachEnd k).2 = .failed err) : Stuck (m.reachEnd k).1 err := by
  obtain ⟨hw, rfl⟩ := of_reachEnd_failed h
  rw [reachEnd_of_not_writable hw]
  exact .inr ⟨hw, rfl⟩

/-- A run that fails does so with the instruction that fails, or between instructions. -/
theorem runFromTraced_failed {watch : Option (Watch σ)} {atEnd : Machine → Nat → Outcome}
    (hend : ∀ k n err, atEnd k n ≠ .failed err) {allowed executed : Nat} {memo : σ} {m : Machine}
    {err : MachineError}
    (h : (runFromTraced watch atEnd allowed executed memo m).result.outcome = .failed err) :
    let t := runFromTraced watch atEnd allowed executed memo m
    (∃ k ∈ t.attempts, k.cycle.failure = some err) ∨ Stuck t.result.machine err := by
  induction allowed generalizing executed memo m with
  | zero =>
    unfold runFromTraced at h ⊢
    split at h
    · rename_i hp
      rw [if_pos hp]
      exact .inr (stuck_of_reachEnd h)
    · exact absurd h (hend _ _ _)
  | succ allowed ih =>
    unfold runFromTraced at h ⊢
    split at h
    · rename_i hp
      rw [if_pos hp]
      exact .inr (stuck_of_reachEnd h)
    · rename_i hp
      rw [if_neg hp]
      have hc := consented watch (executed = 0) memo m
      revert h hc
      dsimp only
      generalize consent watch (executed = 0) memo m = a
      rintro h (⟨memo, hk⟩ | ⟨memo, hk⟩ | hout)
      · rename_i k
        dsimp only at h ⊢
        cases hf : k.cycle.failure with
        | some err' =>
          rw [hf] at h
          obtain rfl := Outcome.failed.inj h
          exact .inl ⟨k, List.mem_singleton_self k, hf⟩
        | none =>
          rw [hf] at h
          dsimp only at h ⊢
          split at h
          · cases h
          · rename_i hh
            rw [if_neg hh]
            refine (ih h).imp_left ?_
            rintro ⟨k', hk', hfail⟩
            exact ⟨k', List.mem_cons_of_mem k hk', hfail⟩
      · cases h
      · obtain rfl := Outcome.failed.inj h
        refine .inr (.inl ⟨?_, rfl⟩)
        have hp : ¬ (m.memory.size : Int) ≤ m.regs.pc := fun hle => hp (decide_eq_true hle)
        have hout : ¬ m.memory.holds m.regs.pc = true := Bool.eq_false_iff.1 hout
        rw [Memory.holds_iff] at hout
        show m.regs.pc < 0
        omega

/-- What every cycle of a running machine keeps holds before each instruction of a run, and behind
    it; and no instruction is attempted behind the end of memory. -/
theorem runFromTraced_keeps {P : Machine → Prop} (hP : ∀ {k k'}, exact.Alike k' k → P k → P k')
    (hnext : ∀ {k}, k.isRunning = true → P k → P k.next) (watch : Option (Watch σ))
    (atEnd : Machine → Nat → Outcome) (allowed executed : Nat) (memo : σ) {m : Machine}
    (hm : m.isRunning = true) (h : P m) :
    let t := runFromTraced watch atEnd allowed executed memo m
    (∀ k ∈ t.attempts, P k ∧ k.isRunning = true ∧ k.isPastEnd = false) ∧ P t.result.machine := by
  induction allowed generalizing executed memo m with
  | zero =>
    unfold runFromTraced
    split
    · exact ⟨List.forall_mem_nil _, hP (reachEnd_exact m executed).1 h⟩
    · exact ⟨List.forall_mem_nil _, h⟩
  | succ allowed ih =>
    unfold runFromTraced
    split
    · exact ⟨List.forall_mem_nil _, hP (reachEnd_exact m executed).1 h⟩
    · rename_i hp
      have hc := consented watch (executed = 0) memo m
      revert hc
      dsimp only
      generalize consent watch (executed = 0) memo m = a
      rintro (⟨memo, hk⟩ | ⟨memo, hk⟩ | hout)
      · rename_i k
        have hPk : P k := hP hk h
        have hrun : k.isRunning = true := hk.isRunning.trans hm
        have htried : P k ∧ k.isRunning = true ∧ k.isPastEnd = false :=
          ⟨hPk, hrun, hk.isPastEnd.trans (Bool.eq_false_iff.2 hp)⟩
        have hsingle : ∀ k' ∈ [k], P k' ∧ k'.isRunning = true ∧ k'.isPastEnd = false := by
          intro k' hk'
          obtain rfl := List.mem_singleton.1 hk'
          exact htried
        have hPnext : P k.next := hnext hrun hPk
        dsimp only
        cases hf : k.cycle.failure with
        | some err => exact ⟨hsingle, hPnext⟩
        | none =>
          dsimp only
          split
          · exact ⟨hsingle, hPnext⟩
          · rename_i hh
            obtain ⟨hrest, hend⟩ := ih (executed + 1) memo (isRunning_next hrun hf hh) hPnext
            exact ⟨List.forall_mem_cons.2 ⟨htried, hrest⟩, hend⟩
      · exact ⟨List.forall_mem_nil _, hP hk h⟩
      · exact ⟨List.forall_mem_nil _, h⟩

/-- What a machine is asked to do: a step, or a run under a watch of its own or under none. -/
inductive Drive
  | step
  | run {σ : Type} (watch : Option (Watch σ)) (memo : σ) (limit : Option Int) (patience : Nat)

/-- The machine behind a step or a run, and how that ended. -/
def drive (m : Machine) : Drive → Machine × Outcome
  | .step => m.step
  | .run watch memo limit patience =>
    let r := m.run watch memo limit patience
    (r.machine, r.outcome)

/-- The machines to which a step or a run applies the cycle. -/
def tries (m : Machine) : Drive → List Machine
  | .step => m.stepTraced.attempts
  | .run watch memo limit patience => (m.runTraced watch memo limit patience).attempts

/-- The machine behind some steps and runs. -/
def driveAll (m : Machine) (ds : List Drive) : Machine := ds.foldl (fun k d => (k.drive d).1) m

theorem step_keeps {P : Machine → Prop} (hP : ∀ {k k'}, exact.Alike k' k → P k → P k')
    (hnext : ∀ {k}, k.isRunning = true → P k → P k.next) {m : Machine} (h : P m) :
    (∀ k ∈ m.stepTraced.attempts, P k ∧ k.isRunning = true ∧ k.isPastEnd = false) ∧
      P m.stepTraced.result.1 := by
  have hs := stepped m
  revert hs
  generalize m.stepTraced = t
  intro hs
  cases hs with
  | idle => exact ⟨List.forall_mem_nil _, h⟩
  | past => exact ⟨List.forall_mem_nil _, h⟩
  | @tried k o hm hp hk =>
    have hrun := hk.isRunning.trans hm
    refine ⟨fun k' hk' => ?_, hnext hrun (hP hk h)⟩
    obtain rfl := List.mem_singleton.1 hk'
    exact ⟨hP hk h, hrun, hk.isPastEnd.trans hp⟩

/-- What every cycle of a running machine keeps holds before each instruction of a step or a run, and
    behind it. -/
theorem drive_keeps {P : Machine → Prop} (hP : ∀ {k k'}, exact.Alike k' k → P k → P k')
    (hnext : ∀ {k}, k.isRunning = true → P k → P k.next) {m : Machine} (h : P m) (d : Drive) :
    (∀ k ∈ m.tries d, P k ∧ k.isRunning = true ∧ k.isPastEnd = false) ∧ P (m.drive d).1 := by
  cases d with
  | step =>
    unfold drive tries
    rw [← stepTraced_result]
    exact step_keeps hP hnext h
  | run watch memo limit patience =>
    simp only [drive, tries, ← runTraced_result]
    unfold runTraced
    cases hm : m.isRunning with
    | false => exact ⟨List.forall_mem_nil _, h⟩
    | true =>
      rw [Bool.not_true, if_neg Bool.false_ne_true]
      cases limit with
      | some n => exact runFromTraced_keeps hP hnext watch _ _ 0 memo hm h
      | none => exact runFromTraced_keeps hP hnext watch _ _ 0 memo hm h

theorem runTraced_failed {watch : Option (Watch σ)} {memo : σ} {limit : Option Int}
    {patience : Nat} {err : MachineError}
    (h : (m.runTraced watch memo limit patience).result.outcome = .failed err) :
    let t := m.runTraced watch memo limit patience
    (∃ k ∈ t.attempts, k.cycle.failure = some err) ∨ Stuck t.result.machine err := by
  unfold runTraced at h ⊢
  cases hm : m.isRunning with
  | false =>
    rw [hm] at h
    cases h
  | true =>
    rw [hm, Bool.not_true, if_neg Bool.false_ne_true] at h
    rw [Bool.not_true, if_neg Bool.false_ne_true]
    cases limit with
    | some n => exact runFromTraced_failed (fun _ _ _ => Outcome.noConfusion) h
    | none => exact runFromTraced_failed (fun _ _ _ => Outcome.noConfusion) h

theorem stepTraced_failed {err : MachineError} (h : m.stepTraced.result.2 = .failed err) :
    ∃ k ∈ m.stepTraced.attempts, k.cycle.failure = some err := by
  have hs := stepped m
  revert hs h
  generalize m.stepTraced = t
  intro h hs
  cases hs with
  | idle => cases h
  | past => cases h
  | @tried k o _ _ _ _ ho =>
    refine ⟨k, List.mem_singleton_self k, ?_⟩
    have h : o = .failed err := h
    subst h
    cases hf : k.cycle.failure with
    | some err' =>
      rw [hf] at ho
      rw [Outcome.failed.inj ho]
    | none =>
      rw [hf] at ho
      cases ho

/-- A step or a run that fails does so with the instruction that fails, or between instructions. -/
theorem drive_failed {d : Drive} {err : MachineError} (h : (m.drive d).2 = .failed err) :
    (∃ k ∈ m.tries d, k.cycle.failure = some err) ∨ Stuck (m.drive d).1 err := by
  cases d with
  | step =>
    unfold drive at h
    rw [← stepTraced_result] at h
    exact .inl (stepTraced_failed h)
  | run watch memo limit patience =>
    simp only [drive, tries, ← runTraced_result] at h ⊢
    exact runTraced_failed h

/-! ## Machines that begin in memory -/

/-- A machine with `size` cells whose program counter is not in front of them. -/
def Within (size : Nat) (m : Machine) : Prop := m.memory.size = size ∧ 0 ≤ m.regs.pc

theorem Within.of_alike {size : Nat} {k k' : Machine} (hk : exact.Alike k' k)
    (h : Within size k) : Within size k' := by
  have hm : k'.memory = k.memory := hk.memory
  unfold Within
  rw [hm, hk.regs]
  exact h

theorem Within.next {size : Nat} {k : Machine} (hrun : k.isRunning = true)
    (h : Within size k) : Within size k.next :=
  ⟨(cycle_size k).trans h.1, pc_next_nonneg hrun h.2⟩

theorem Within.driveAll {size : Nat} (h : Within size m) (ds : List Drive) :
    Within size (m.driveAll ds) := by
  induction ds generalizing m with
  | nil => exact h
  | cons d ds ih => exact ih (drive_keeps Within.of_alike Within.next h d).2

/-- Whatever the words in memory are and whatever the machine is asked to do, as long as its program
    counter begins at zero or further on it stays there, and every instruction is fetched from a
    cell. A step or a run fails with an instruction that it attempts, or because the program counter is
    too long to be noted. So it fails with an address outside memory only if the address is the operand
    of an instruction that it attempts and is behind memory; in a memory of a hundred cells or more
    it never does. -/
theorem address_faults (m : Machine) (hpc : 0 ≤ m.regs.pc) (ds : List Drive) (d : Drive) :
    let k := m.driveAll ds
    0 ≤ k.regs.pc ∧
      (∀ t ∈ k.tries d, 0 ≤ t.regs.pc ∧ t.memory.holds t.regs.pc = true ∧ 0 ≤ t.next.regs.pc) ∧
      (∀ err, (k.drive d).2 = .failed err →
        (∃ t ∈ k.tries d, t.cycle.failure = some err) ∨
          ¬Text.IsWritable (k.drive d).1.regs.pc ∧ err = .number .writing) ∧
      (∀ a size, (k.drive d).2 = .failed (.address a size) →
        size = m.memory.size ∧ ∃ t ∈ k.tries d, t.Beyond a) ∧
      (100 ≤ m.memory.size → ∀ a size, (k.drive d).2 ≠ .failed (.address a size)) := by
  intro k
  have hk : Within m.memory.size k := Within.driveAll ⟨rfl, hpc⟩ ds
  obtain ⟨htries, hafter⟩ := drive_keeps Within.of_alike Within.next hk d
  have hcell : ∀ t ∈ k.tries d, t.memory.holds t.regs.pc = true := by
    intro t ht
    obtain ⟨hw, -, hp⟩ := htries t ht
    have hp : ¬ (t.memory.size : Int) ≤ t.regs.pc := of_decide_eq_false hp
    exact Memory.holds_iff.2 ⟨hw.2, by omega⟩
  have hfailed : ∀ err, (k.drive d).2 = .failed err →
      (∃ t ∈ k.tries d, t.cycle.failure = some err) ∨
        ¬Text.IsWritable (k.drive d).1.regs.pc ∧ err = .number .writing := by
    intro err h
    exact (drive_failed h).imp_right fun hs => hs.resolve_left fun hn =>
      Int.not_lt.2 hafter.2 hn.1
  have hbeyond : ∀ a size, (k.drive d).2 = .failed (.address a size) →
      size = m.memory.size ∧ ∃ t ∈ k.tries d, t.Beyond a := by
    intro a size h
    obtain ⟨t, ht, hf⟩ := (hfailed _ h).resolve_right nofun
    obtain ⟨hb, hsize⟩ := beyond_of_failure (hcell t ht) hf
    rw [(htries t ht).1.1] at hsize
    exact ⟨hsize, t, ht, hb⟩
  refine ⟨hk.2, fun t ht => ?_, hfailed, hbeyond, fun hroom a size h => ?_⟩
  · obtain ⟨hw, hrun, -⟩ := htries t ht
    exact ⟨hw.2, hcell t ht, pc_next_nonneg hrun hw.2⟩
  · obtain ⟨-, t, ht, hb⟩ := hbeyond a size h
    have hlt := hb.lt
    rw [(htries t ht).1.1] at hlt
    omega

/-- A store into a cell that is not there, behind an instruction that is carried out. -/
theorem address_faults_store :
    let m := new ⟨#[.num 2000, .num 2109], by decide⟩ []
    let k := m.driveAll [.step]
    0 ≤ m.regs.pc ∧ (k.drive (.run none () none 5)).2 = .failed (.address 9 2) ∧
      ∃ t ∈ k.tries (.run none () none 5), t.Beyond 9 := by
  intro m k
  have hpc : 0 ≤ m.regs.pc := by decide
  have h : (k.drive (.run none () none 5)).2 = .failed (.address 9 2) := by decide +kernel
  obtain ⟨-, -, -, hbeyond, -⟩ := address_faults m hpc [.step] (.run none () none 5)
  exact ⟨hpc, h, (hbeyond 9 2 h).2⟩

end Machine

end DecimalMachine
