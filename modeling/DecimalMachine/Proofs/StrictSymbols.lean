import Mathlib.Data.List.Forall2
import DecimalMachine.Proofs.AssemblerHistory
/-
  Strict assembly, in which every operand has to be defined. A line whose operand is defined is encoded
  in the same way as without the flag; any other line is refused with it and encoded with a zero
  without it (`Tightened`). Over all the lines one of two things holds: both assemblies are the same,
  or only the strict one fails for a reason of its own (`Compared`). So the strict assembly gives the
  programs of the lenient one in which every operand is defined, and no others.
-/
namespace DecimalMachine

/-- Every operand stands for something. -/
def Program.Defined (p : Program) : Prop :=
  ∀ i ∈ p.instructions, i.resolution ≠ some .undefined

instance (p : Program) : Decidable p.Defined :=
  inferInstanceAs (Decidable (∀ i ∈ p.instructions, i.resolution ≠ some .undefined))

namespace Assembly

/-! ## One line -/

/-- The encoding of a line in strict mode, and the one in lenient mode. -/
inductive Tightened (strict lenient : Encoding) : Prop
  | kept (h : strict = lenient)
      (hd : ∀ i, lenient.instruction = some i → i.resolution ≠ some .undefined)
  | refused {f : Finding} {i : Instruction} (hf : f ∈ strict.findings) (he : f.isError = true)
      (hi : lenient.instruction = some i) (hu : i.resolution = some .undefined)

theorem eq_zero_of_undefined {t : Tables} {x : String} {n : Nat}
    (h : resolve t x = .ok (n, .undefined)) : n = 0 := by
  unfold resolve at h
  split at h
  · cases hn : Text.natOfDigits x.toList <;> rw [hn] at h <;> cases h
  · split at h <;> cases h
    rfl

theorem inRange_code (op : Opcode) : Word.inRange (Word.join op.code 0) = true := by
  cases op <;> rfl

/-- The flag matters for an operand of nothing only, and zero makes a word with any operation. -/
theorem tightened_encodeOperand (t : Tables) (l : Line) (address : Nat) (op : Opcode) (x : String)
    (found : List Finding) :
    Tightened (encodeOperand t true l address op x found)
      (encodeOperand t false l address op x found) := by
  unfold encodeOperand
  cases hr : resolve t x with
  | error e => exact .kept rfl fun i hi => nomatch hi
  | ok r =>
    obtain ⟨n, res⟩ := r
    dsimp only
    by_cases hu : res = .undefined
    · subst hu
      obtain rfl := eq_zero_of_undefined hr
      have hword := inRange_code op
      refine .refused (i := ⟨address, Word.join op.code 0, op, 0, l, some .undefined⟩)
        (List.mem_append_right _ List.mem_cons_self) rfl ?_ rfl
      simp [hword]
    · simp only [hu, decide_false, Bool.false_and, Bool.false_eq_true, if_false]
      refine .kept rfl fun i hi => ?_
      split at hi
      · split at hi <;> cases hi
      · obtain rfl := Option.some.inj hi
        simpa using hu

theorem tightened_encode (t : Tables) (l : Line) (address : Nat) :
    Tightened (encode t true l address) (encode t false l address) := by
  unfold encode
  split
  · split
    · exact .kept rfl fun i hi => nomatch hi
    · dsimp only
      split
      · refine .kept rfl fun i hi => ?_
        obtain rfl := Option.some.inj hi
        exact fun h => nomatch h
      · split
        · exact .kept rfl fun i hi => nomatch hi
        · exact tightened_encodeOperand ..
  · exact .kept rfl fun i hi => nomatch hi

/-! ## All lines -/

theorem tightened_encodeAll (t : Tables) (lines : List Line) :
    List.Forall₂ Tightened (encodeAll t true lines) (encodeAll t false lines) := by
  unfold encodeAll
  rw [List.forall₂_map_left_iff, List.forall₂_map_right_iff]
  exact List.forall₂_same.2 fun (l, address) _ => tightened_encode t l address

/-- Either no line makes a difference, or one is refused in strict mode that is not in lenient mode. -/
theorem of_tightened {strict lenient : List Encoding} (h : List.Forall₂ Tightened strict lenient) :
    (strict = lenient ∧
      ∀ i ∈ lenient.filterMap Encoding.instruction, i.resolution ≠ some .undefined) ∨
    (∃ f ∈ strict.flatMap Encoding.findings, f.isError = true) ∧
      ∃ i ∈ lenient.filterMap Encoding.instruction, i.resolution = some .undefined := by
  induction h with
  | nil => exact .inl ⟨rfl, fun i hi => nomatch hi⟩
  | @cons s l ss ls hl hls ih =>
    have hhead : ∀ {i}, l.instruction = some i →
        i ∈ (l :: ls).filterMap Encoding.instruction := fun hi =>
      List.mem_filterMap.2 ⟨l, List.mem_cons_self, hi⟩
    have htail : ∀ {i}, i ∈ ls.filterMap Encoding.instruction →
        i ∈ (l :: ls).filterMap Encoding.instruction := fun hi => by
      obtain ⟨e, he, hei⟩ := List.mem_filterMap.1 hi
      exact List.mem_filterMap.2 ⟨e, List.mem_cons_of_mem l he, hei⟩
    cases hl with
    | refused hf he hi hu =>
      exact .inr ⟨⟨_, List.mem_append_left _ hf, he⟩, _, hhead hi, hu⟩
    | kept h hd =>
      rcases ih with ⟨rfl, hdefined⟩ | ⟨⟨f, hf, he⟩, i, hi, hu⟩
      · refine .inl ⟨by rw [h], fun i hi => ?_⟩
        obtain ⟨e, he, hei⟩ := List.mem_filterMap.1 hi
        rcases List.mem_cons.1 he with rfl | he
        · exact hd i hei
        · exact hdefined i (List.mem_filterMap.2 ⟨e, he, hei⟩)
      · exact .inr ⟨⟨f, List.mem_append_right _ hf, he⟩, i, htail hi, hu⟩

/-! ## Both assemblies -/

/-- A strict assembly and a lenient one: they are the same, or the strict one fails because an operand
    of the other is undefined. -/
inductive Compared (strict lenient : Assembly) : Prop
  | same (h : strict = lenient) (hd : ∀ p, lenient.outcome = .ok p → p.Defined)
  | failed {e : AssemblyError} (he : strict.outcome = .error e)
      (hu : ∀ p, lenient.outcome = .ok p → ¬ p.Defined)

theorem compared_ofLines (filename : String) (lines : List Line) :
    Compared (ofLines true filename lines) (ofLines false filename lines) := by
  have hinstructions : ∀ {p}, (ofLines false filename lines).outcome = .ok p → p.instructions =
      (encodeAll (tabulate lines).1 false lines).filterMap Encoding.instruction := by
    intro p hp
    cases he : (Review.ofFindings (findings false lines)).error? with
    | none =>
      rw [outcome_of_no_error he] at hp
      rw [← Except.ok.inj hp]
    | some e =>
      rw [outcome_of_error he] at hp
      cases hp
  rcases of_tightened (tightened_encodeAll (tabulate lines).1 lines) with
    ⟨heq, hd⟩ | ⟨⟨f, hf, he⟩, i, hi, hu⟩
  · refine .same (by unfold ofLines; dsimp only; rw [heq]) fun p hp i hi => hd i ?_
    rwa [hinstructions hp] at hi
  · cases herror : (Review.ofFindings (findings true lines)).error? with
    | none =>
      have hquiet := (Review.of_error?_eq_none herror).1 f (List.mem_append_right _ hf)
      rw [hquiet] at he
      cases he
    | some e =>
      refine .failed (outcome_of_error herror) fun p hp hd => hd i ?_ hu
      rwa [hinstructions hp]

end Assembly

namespace Assembler

open Assembly

theorem compared_assemble (a b : Assembler) (filename source : String) :
    Compared ({ a with strict := true }.assemble filename source).2
      ({ b with strict := false }.assemble filename source).2 := by
  by_cases hr : Readable filename source
  · obtain ⟨lines, hlines⟩ := assemble_of_readable hr
    rw [hlines, hlines]
    exact compared_ofLines filename lines
  · obtain ⟨err, hleft⟩ := assemble_of_not_readable hr
    rw [hleft, hleft]
    exact .same rfl fun p hp => nomatch hp

/-- The strict flag only rejects: whatever has been assembled before, a source has a program with it
    exactly if it has that program without it and every operand of the program is defined. Then both
    assemblies are the same, notes and warnings included. What fails without the flag fails with it. -/
theorem strict_assemble_ok_iff (a b : Assembler) (filename source : String) :
    let strict := ({ a with strict := true }.assemble filename source).2
    let lenient := ({ b with strict := false }.assemble filename source).2
    (∀ p, strict.outcome = .ok p ↔ lenient.outcome = .ok p ∧ p.Defined) ∧
    (∀ p, strict.outcome = .ok p → strict = lenient) ∧
    ((∃ e, lenient.outcome = .error e) → ∃ e, strict.outcome = .error e) := by
  intro strict lenient
  cases compared_assemble a b filename source with
  | same h hd =>
    have h : strict = lenient := h
    rw [h]
    exact ⟨fun p => ⟨fun hp => ⟨hp, hd p hp⟩, And.left⟩, fun _ _ => rfl, id⟩
  | failed he hu =>
    have hnone : ∀ p, strict.outcome ≠ .ok p := fun p hp => by
      rw [show strict.outcome = _ from he] at hp
      cases hp
    refine ⟨fun p => iff_of_false (hnone p) fun ⟨hp, hd⟩ => hu p hp hd, fun p hp => ?_, fun _ =>
      ⟨_, he⟩⟩
    exact absurd hp (hnone p)

/-- A name of nothing: there is a program in lenient mode, and none in strict mode. -/
theorem strict_assemble_ok_iff_unknown :
    (∃ p, ((new false).assemble "<input>" "LOAD z\nHALT\n").2.outcome = .ok p) ∧
      ∀ p, ((new true).assemble "<input>" "LOAD z\nHALT\n").2.outcome ≠ .ok p := by
  obtain ⟨hiff, -, -⟩ := strict_assemble_ok_iff (new true) (new false) "<input>" "LOAD z\nHALT\n"
  cases ho : ((new false).assemble "<input>" "LOAD z\nHALT\n").2.outcome with
  | error e =>
    have hok : ((new false).assemble "<input>" "LOAD z\nHALT\n").2.outcome.toBool = true := by
      decide +kernel
    rw [ho] at hok
    cases hok
  | ok q =>
    refine ⟨⟨q, rfl⟩, fun p hp => ?_⟩
    obtain ⟨hlenient, hdefined⟩ := (hiff p).1 hp
    have hundefined : ((new false).assemble "<input>" "LOAD z\nHALT\n").2.outcome.toOption.all
        (fun p => decide p.Defined) = false := by
      decide +kernel
    have hlenient : ((new false).assemble "<input>" "LOAD z\nHALT\n").2.outcome = .ok p := hlenient
    rw [hlenient] at hundefined
    exact of_decide_eq_false hundefined hdefined

end Assembler

end DecimalMachine
