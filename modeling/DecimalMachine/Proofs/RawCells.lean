import DecimalMachine.Proofs.AddressFaults
import DecimalMachine.Proofs.Placement
import DecimalMachine.Proofs.UnreadInput
/-
  Raw cells: where the tokens in memory come from that are no numbers. An instruction changes the cell
  at its operand if it reads or stores, and no other cell (`cell_next`); what it stores is a number,
  and what it reads is raw only if the token is no numeral. So a raw cell holds a word of the image
  that was loaded or a token that has been read there, and nothing has been put there since
  (`Origin`). Only a raw cell can make an instruction fail with its token (`names_cycle`): where the
  words of the image and the tokens are numerals, nothing does.
-/
namespace DecimalMachine

open Likeness (exact)

namespace Word

/-- The text is a numeral, with blanks around it or without, and however long it is. -/
def Numeric (t : String) : Prop := Text.isNumeral (Text.trim t.toList) = true

theorem parse_eq_none_iff {t : String} : parse t = .ok none ↔ ¬ Numeric t := by
  unfold parse Text.readNumeral Numeric
  cases Text.isNumeral (Text.trim t.toList) with
  | false => simp
  | true => cases Text.intOfNumeral (Text.trim t.toList) <;> simp [Except.map]

theorem numeric_render (n : Int) : Numeric (render n) := by
  have htrim : Text.trim (Text.padded digits n) = Text.padded digits n :=
    Text.trim_of_not_blank fun c => Text.not_blank_of_mem_padded
  unfold Numeric
  rw [toList_render, htrim]
  exact Text.isNumeral_padded digits n

end Word

theorem Cell.ofText_eq_raw_iff {w t : String} :
    Cell.ofText w = .ok (.raw t) ↔ w = t ∧ Word.parse w = .ok none := by
  constructor
  · intro h
    obtain ⟨n, hn, hc⟩ := Image.parse_of_ofText h
    cases n with
    | none => exact ⟨Cell.raw.inj hc, hn⟩
    | some v => cases hc
  · rintro ⟨rfl, h⟩
    exact Image.ofText_of_parse h

/-- The cell at `a` holds the token `t`. -/
def Memory.Raw (M : Memory) (a : Int) (t : String) : Prop := M.read? a = some (.raw t)

/-- The word of the image for address `a` is `t`, and is no numeral. -/
def Image.Raw (i : Image) (a : Int) (t : String) : Prop :=
  ∃ n : Nat, a = n ∧ i.words[n]? = some t ∧ Word.parse t = .ok none

namespace Machine

variable {m m' : Machine} {op : Opcode} {n a : Int} {t : String} {r : Attempt}

/-! ## One instruction -/

/-- The operand of the word at the program counter. -/
def operand? (m : Machine) : Option Int :=
  match m.memory.read? m.regs.pc with
  | some (.num w) => some (Word.split w).2
  | _ => none

theorem operand?_of_num {w : Int} (hw : m.memory.read? m.regs.pc = some (.num w)) :
    m.operand? = some (Word.split w).2 := by
  unfold operand?
  rw [hw]

/-- The next instruction puts something into the cell at `a`: it is completed, and reads or stores
    there. -/
structure Puts (m : Machine) (a : Int) : Prop where
  completed : m.cycle.failure = none
  operation : m.operation? = some .read ∨ m.operation? = some .store
  address : m.operand? = some a

/-- The next instruction is completed, and reads the token `t` into the cell at `a`. -/
structure Takes (m : Machine) (a : Int) (t : String) : Prop where
  completed : m.cycle.failure = none
  operation : m.operation? = some .read
  address : m.operand? = some a
  token : m.token? = some t

theorem operand?_congr (h : exact.Alike m m') : m.operand? = m'.operand? := by
  have hm : m.memory = m'.memory := h.memory
  unfold operand?
  rw [hm, h.regs]

theorem Puts.congr (h : exact.Alike m m') (hp : m.Puts a) : m'.Puts a where
  completed := (cycle_exact h).1 ▸ hp.completed
  operation := operation?_congr h ▸ hp.operation
  address := operand?_congr h ▸ hp.address

theorem Takes.congr (h : exact.Alike m m') (ht : m.Takes a t) : m'.Takes a t where
  completed := (cycle_exact h).1 ▸ ht.completed
  operation := operation?_congr h ▸ ht.operation
  address := operand?_congr h ▸ ht.address
  token := token?_congr h ▸ ht.token

/-- What an operation that is carried out leaves in the cell at `a`. -/
theorem Carried.cell (h : Carried m op n r) (hf : r.failure = none) (a : Int) :
    ¬ ((op = .read ∨ op = .store) ∧ n = a) ∧ r.machine.memory.read? a = m.memory.read? a ∨
      op = .store ∧ r.machine.memory.read? a = some (.num m.regs.accumulator) ∨
      op = .read ∧ n = a ∧ ∃ t c, m.input.head? = some t ∧ Cell.ofText t = .ok c ∧
        r.machine.memory.read? a = some c := by
  cases h with
  | refused => rw [fail_failure] at hf; cases hf
  | refusedToken => rw [fail_failure] at hf; cases hf
  | stored hop hn =>
    by_cases ha : n = a
    · subst ha
      exact .inr (.inl ⟨hop, Memory.read?_set_self _ hn⟩)
    · exact .inl ⟨fun h => ha h.2, Memory.read?_set_of_ne _ ha⟩
  | tookToken hop _ ht hc _ hn =>
    by_cases ha : n = a
    · subst ha
      exact .inr (.inr ⟨hop, rfl, _, _, ht, hc, Memory.read?_set_self _ hn⟩)
    · exact .inl ⟨fun h => ha h.2, Memory.read?_set_of_ne _ ha⟩
  | accumulated hv =>
    have hset := hv.setsAccumulator
    refine .inl ⟨?_, rfl⟩
    rintro ⟨rfl | rfl, -⟩ <;> cases hset
  | dividedByZero hop | jumped hop | passed hop =>
    refine .inl ⟨?_, rfl⟩
    rintro ⟨rfl | rfl, -⟩ <;> simp at hop
  | wrote hop | halted hop =>
    refine .inl ⟨?_, rfl⟩
    rintro ⟨rfl | rfl, -⟩ <;> cases hop

/-- Behind an instruction a cell is what it was, or it is where the instruction has put something:
    the accumulator, or what the token reads as that it has taken. -/
theorem cell_next (m : Machine) (a : Int) :
    ¬ m.Puts a ∧ m.next.memory.read? a = m.memory.read? a ∨
      m.next.memory.read? a = some (.num m.regs.accumulator) ∨
      ∃ t c, m.Takes a t ∧ Cell.ofText t = .ok c ∧ m.next.memory.read? a = some c := by
  unfold next
  cases hf : m.cycle.failure with
  | some e =>
    obtain ⟨-, k, hk, hcycle⟩ := cycle_of_failure hf
    refine .inl ⟨fun h => ?_, ?_⟩
    · rw [h.completed] at hf
      cases hf
    · rw [hcycle, fail_memory, hk.untouched.memory]
  | none =>
    obtain ⟨c, hc⟩ := Memory.exists_read? (holds_of_completed hf)
    cases c with
    | raw t =>
      rw [cycle_of_raw hc, fail_failure] at hf
      cases hf
    | num w =>
      obtain ⟨hdone, hcycle⟩ := cycle_of_completed hc hf
      have hop : m.operation? = Opcode.ofCode? (m.fetch w).regs.opcode := operation?_of_num hc
      have haddress : m.operand? = some (m.fetch w).regs.operand := operand?_of_num hc
      rw [hcycle, advance_memory]
      have hd := dispatched (m.fetch w)
      revert hd hdone
      generalize (m.fetch w).dispatch = r
      intro hdone hd
      cases hd with
      | unknown text h =>
        refine .inl ⟨fun hp => ?_, rfl⟩
        rcases hp.operation with h' | h' <;> rw [hop, h] at h' <;> cases h'
      | unwritten =>
        rw [fail_failure] at hdone
        cases hdone
      | @known op _ h hcarried =>
        rw [h] at hop
        rcases hcarried.cell hdone a with ⟨hno, hsame⟩ | ⟨-, hstored⟩ | ⟨rfl, ha, t, c, ht, hread⟩
        · refine .inl ⟨fun hp => hno ⟨?_, ?_⟩, hsame⟩
          · exact hp.operation.imp (fun h => Option.some.inj (hop.symm.trans h))
              fun h => Option.some.inj (hop.symm.trans h)
          · exact Option.some.inj (haddress.symm.trans hp.address)
        · exact .inr (.inl hstored)
        · refine .inr (.inr ⟨t, c, ⟨hf, hop, ha ▸ haddress, ?_⟩, hread⟩)
          unfold token?
          rw [if_pos hop]
          exact ht

/-- A cell that is raw behind an instruction was so before it and has been left alone, or it is where
    the instruction has read a token that is no numeral. -/
theorem raw_next (h : m.next.memory.Raw a t) :
    m.memory.Raw a t ∧ ¬ m.Puts a ∨ m.Takes a t ∧ Word.parse t = .ok none := by
  rcases cell_next m a with ⟨hno, hsame⟩ | hstored | ⟨t', c, htakes, hc, hread⟩
  · exact .inl ⟨hsame.symm.trans h, hno⟩
  · cases hstored.symm.trans h
  · obtain rfl := Option.some.inj (hread.symm.trans h)
    obtain ⟨rfl, hp⟩ := Cell.ofText_eq_raw_iff.1 hc
    exact .inr ⟨htakes, hp⟩

/-! ## The origin of a raw cell -/

/-- The token `t` in the cell at `a` is there from the start, or one of the machines has read it. None
    of those that came after has put anything there. -/
inductive Origin (start : Int → String → Prop) (tried : List Machine) (a : Int) (t : String) : Prop
  | kept (hs : start a t) (hno : ∀ k ∈ tried, ¬ k.Puts a)
  | taken {before after : List Machine} {k : Machine} (htried : tried = before ++ k :: after)
      (hk : k.Takes a t) (ht : Word.parse t = .ok none) (hno : ∀ k ∈ after, ¬ k.Puts a)

theorem Origin.parse {start : Int → String → Prop} {tried : List Machine}
    (h : Origin start tried a t) (hs : ∀ {a t}, start a t → Word.parse t = .ok none) :
    Word.parse t = .ok none := by
  cases h with
  | kept h => exact hs h
  | taken _ _ ht => exact ht

/-- What comes of some instructions, and then of some more. -/
theorem Origin.append {start : Int → String → Prop} {M : Memory} {earlier later : List Machine}
    (h : Origin M.Raw later a t) (hM : M.Raw a t → Origin start earlier a t) :
    Origin start (earlier ++ later) a t := by
  cases h with
  | kept hs hno =>
    cases hM hs with
    | kept hs' hno' => exact .kept hs' (List.forall_mem_append.2 ⟨hno', hno⟩)
    | @taken before after k htried hk ht hno' =>
      have hall : earlier ++ later = before ++ k :: (after ++ later) := by
        rw [htried, List.append_assoc, List.cons_append]
      exact .taken hall hk ht (List.forall_mem_append.2 ⟨hno', hno⟩)
  | @taken before after k htried hk ht hno =>
    have hall : earlier ++ later = (earlier ++ before) ++ k :: after := by
      rw [htried, List.append_assoc]
    exact .taken hall hk ht hno

theorem Chain.origin {ms : List Machine} (h : Chain m ms)
    (hraw : (next^[ms.length] m).memory.Raw a t) : Origin m.memory.Raw ms a t := by
  induction ms generalizing m with
  | nil => exact .kept hraw (List.forall_mem_nil _)
  | cons k ms ih =>
    have hk : exact.Alike k m := h 0 (Nat.succ_pos _)
    have hms : Chain m.next ms := fun i hi => h (i + 1) (Nat.succ_lt_succ hi)
    have hfirst : m.next.memory.Raw a t → Origin m.memory.Raw [k] a t := by
      intro hnext
      rcases raw_next hnext with ⟨hwas, hno⟩ | ⟨htakes, ht⟩
      · refine .kept hwas fun k' hk' hp => hno ?_
        obtain rfl := List.mem_singleton.1 hk'
        exact hp.congr hk
      · have hone : [k] = [] ++ k :: [] := rfl
        exact .taken hone (htakes.congr hk.symm) ht (List.forall_mem_nil _)
    exact (ih hms hraw).append hfirst

/-! ## Faults that name a token -/

end Machine

/-- The token in a raw cell that a fault is about. -/
def Fault.token? : Fault → Option String
  | .notNumeric _ t | .notInstruction t => some t
  | _ => none

/-- If the attempt fails with a fault about a token, the token is in a cell of `M`. -/
def Attempt.Names (M : Memory) (r : Attempt) : Prop :=
  ∀ q t, r.failure = some (.fault q) → q.fault.token? = some t → ∃ a, M.Raw a t

namespace Machine

variable {m : Machine} {M : Memory} {op : Opcode} {n a v : Int} {t : String}

theorem names_done : m.done.Names M := fun _ _ h => nomatch h

theorem names_fail {e : MachineError} (he : ∀ q, e = .fault q → q.fault.token? = none) :
    (m.fail e).Names M := by
  intro q t h ht
  rw [fail_failure] at h
  rw [he q (Option.some.inj h)] at ht
  cases ht

theorem names_failOutside : (m.failOutside a).Names M :=
  names_fail fun q h => absurd h (Memory.outside_ne_fault _ _ q)

theorem names_faultIn {f : Fault} (hf : f.token? = none) : (m.faultIn op f).Names M := by
  refine names_fail ?_
  rintro _ ⟨⟩
  exact hf

theorem names_setChecked : (m.setChecked op v).Names M := by
  unfold setChecked
  split
  · exact names_done
  · split
    · exact names_faultIn rfl
    · exact names_fail (fun _ h => nomatch h)

theorem names_applyValue : (m.applyValue op v).Names M := by
  unfold applyValue divideBy remainderBy
  cases op with
  | add | addImm | subtract | subtractImm | multiply | multiplyImm => exact names_setChecked
  | divide | divideImm =>
    dsimp only
    split
    · exact names_done
    · exact names_setChecked
  | modulo | moduloImm =>
    dsimp only
    split
    · exact names_faultIn rfl
    · exact names_done
  | _ => exact names_done

theorem names_applyCell : (m.applyCell op a).Names m.memory := by
  unfold applyCell
  split
  · exact names_failOutside
  · rename_i t hraw
    intro q t' h ht
    rw [faultIn, fail_failure] at h
    cases h
    obtain rfl := Option.some.inj ht
    exact ⟨a, hraw⟩
  · exact names_applyValue

theorem names_store {c : Cell} : (m.store a c).Names M := by
  unfold store
  split
  · exact names_done
  · exact names_failOutside

theorem names_readInto : (m.readInto a).Names M := by
  unfold readInto
  dsimp only
  split
  · exact names_faultIn rfl
  · split
    · exact names_fail (fun _ h => nomatch h)
    · exact names_store
    · split
      · exact names_store
      · exact names_faultIn rfl

theorem names_writeFrom : (m.writeFrom a).Names M := by
  unfold writeFrom
  split
  · exact names_failOutside
  · split
    · exact names_fail (fun _ h => nomatch h)
    · exact names_done

theorem names_execute : (m.execute op n).Names m.memory := by
  unfold execute
  cases op with
  | read => exact names_readInto
  | write => exact names_writeFrom
  | store => exact names_store
  | load | add | subtract | divide | modulo | multiply => exact names_applyCell
  | loadImm | addImm | subtractImm | divideImm | moduloImm | multiplyImm => exact names_applyValue
  | jump | halt => exact names_done
  | jumpNegative | jumpZero =>
    dsimp only
    split <;> exact names_done

/-- An instruction fails with a fault about a token only if the token is in a cell. -/
theorem names_cycle (m : Machine) : m.cycle.Names m.memory := by
  cases hc : m.memory.read? m.regs.pc with
  | none =>
    rw [cycle_of_none hc]
    exact names_failOutside
  | some c =>
    cases c with
    | raw t =>
      rw [cycle_of_raw hc]
      intro q t' h ht
      rw [fail_failure] at h
      cases h
      obtain rfl := Option.some.inj ht
      exact ⟨m.regs.pc, hc⟩
    | num w =>
      have hdispatch : (m.fetch w).dispatch.Names m.memory := by
        unfold dispatch
        split
        · exact names_execute (m := m.fetch w)
        · split
          · exact names_done
          · exact names_fail (fun _ h => nomatch h)
      rw [cycle_of_num hc]
      split
      · exact names_done
      · exact hdispatch

/-! ## Machines without raw cells -/

/-- No cell is raw, and every token that waits is a numeral. -/
structure Numbers (m : Machine) : Prop where
  cells : ∀ a t, ¬ m.memory.Raw a t
  input : ∀ t ∈ m.input, Word.Numeric t

theorem Numbers.of_alike {k : Machine} (h : m.Numbers) (hk : exact.Alike k m) : k.Numbers := by
  have hm : k.memory = m.memory := hk.memory
  have hi : k.input = m.input := hk.input
  exact ⟨hm ▸ h.cells, hi ▸ h.input⟩

/-- An instruction makes no cell raw that was not, as it reads nothing but numerals. -/
theorem Numbers.next (h : m.Numbers) : m.next.Numbers where
  cells a t hraw := by
    rcases raw_next hraw with ⟨hwas, -⟩ | ⟨htakes, ht⟩
    · exact h.cells a t hwas
    · have hhead : m.input.head? = some t := by
        have htoken := htakes.token
        unfold token? at htoken
        rwa [if_pos htakes.operation] at htoken
      exact Word.parse_eq_none_iff.1 ht (h.input t (List.mem_of_mem_head? hhead))
  input t ht := h.input t ((input_next m).subset ht)

theorem Numbers.iterate (h : m.Numbers) (k : Nat) : (Machine.next^[k] m).Numbers := by
  induction k with
  | zero => exact h
  | succ k ih =>
    rw [Function.iterate_succ_apply']
    exact ih.next

theorem Numbers.chain {ms : List Machine} (h : m.Numbers) (hms : Chain m ms) :
    ∀ k ∈ ms, k.Numbers := by
  intro k hk
  obtain ⟨i, hi, rfl⟩ := List.getElem_of_mem hk
  exact (h.iterate i).of_alike (hms i hi)

end Machine

namespace Emulator

open Machine

variable {e : Emulator} {a : Int} {t : String}

/-! ## Calls -/

/-- A call that drives the machine or feeds it leaves nothing in memory but what its instructions put
    there. -/
theorem origin_perform {c : Call} (hc : c.drives = true ∨ ∃ tokens, c = .feed tokens)
    (h : (e.perform c).1.machine.memory.Raw a t) : Origin e.machine.memory.Raw (e.attempts c) a t := by
  rcases hc with hc | ⟨tokens, rfl⟩
  · have hm : (e.perform c).1.machine.memory = _ := (drive_exact e hc).memory
    rw [hm] at h
    exact (chain_attempts e c).origin h
  · exact .kept h (List.forall_mem_nil _)

theorem origin_performAll {cs : List Call}
    (hcs : ∀ c ∈ cs, c.drives = true ∨ ∃ tokens, c = .feed tokens)
    (h : (e.performAll cs).machine.memory.Raw a t) :
    Origin e.machine.memory.Raw (tried (e.history cs)) a t := by
  induction cs generalizing e with
  | nil => exact .kept h (List.forall_mem_nil _)
  | cons c cs ih =>
    obtain ⟨hc, hcs⟩ := List.forall_mem_cons.1 hcs
    have hlater : Origin (e.perform c).1.machine.memory.Raw
        (tried ((e.perform c).1.history cs)) a t := ih hcs h
    exact hlater.append (origin_perform hc)

/-- A raw cell of an image that has just been loaded holds the word of the image at its address. -/
theorem raw_of_loaded {c : Call} {i : Image} (hload : (e.perform c).2 = .loaded)
    (hi : (e.perform c).1.image = some i) (h : (e.perform c).1.machine.memory.Raw a t) :
    i.Raw a t := by
  have hd : c.drives = false := by
    cases hd : c.drives with
    | false => rfl
    | true => exact absurd hload (reply_of_drives e hd)
  have hs := settled e hd
  revert hload hi h hs
  generalize e.perform c = r
  intro hload hi h hs
  cases hs with
  | kept _ _ _ hl => exact absurd hload hl
  | refused => cases hload
  | blank hn => cases hn.symm.trans hi
  | fed => cases hload
  | @started _ k _ memory _ hl hk =>
    obtain rfl := Option.some.inj hi.symm
    obtain ⟨-, hroom, cells, hread, -, rfl⟩ := Image.loadInto_eq_ok_iff.1 hl
    have hm : k.memory = _ := hk.memory
    have h : k.memory.read? a = some (.raw t) := h
    obtain ⟨h0, -⟩ := Memory.holds_iff.1 (Memory.holds_of_read? h)
    lift a to Nat using h0
    rw [hm] at h
    have hset : (e.machine.memory.clear.setAll 0 cells).read? (a : Int) = some (.raw t) := h
    rw [Memory.read?_setAll (by rw [Nat.zero_add, ← hread.length_eq]; exact hroom),
      Memory.read?_clear] at hset
    split at hset
    · rw [Nat.sub_zero] at hset
      obtain ⟨hlt, hcell⟩ := List.getElem?_eq_some_iff.1 hset
      have hlt' : a < i.words.length := hread.length_eq ▸ hlt
      have hword := hread.get hlt' hlt
      rw [List.get_eq_getElem, List.get_eq_getElem, hcell] at hword
      obtain ⟨hw, hp⟩ := Cell.ofText_eq_raw_iff.1 hword
      exact ⟨a, rfl, hw ▸ List.getElem?_eq_getElem hlt', hw ▸ hp⟩
    · split at hset <;> cases hset

/-- A step or a run that fails does so with an instruction that fails, or between instructions and then
    not with a fault. -/
theorem failed_reply {c : Call} {err : MachineError}
    (h : (e.perform c).2 = .went (.failed err)) :
    (∃ k ∈ e.attempts c, k.cycle.failure = some err) ∨ ∀ q, err ≠ .fault q := by
  cases c with
  | step =>
    have h : e.step.2 = .failed err := Reply.went.inj h
    rw [step_eq] at h
    exact .inl (stepTraced_failed h)
  | run limit patience =>
    have h : (e.run limit patience).2 = .failed err := Reply.went.inj h
    rw [(run_exact e limit patience).1] at h
    exact (runTraced_failed h).imp_right Stuck.ne_fault
  | load | reset =>
    simp only [perform, Reply.ofLoad] at h
    split at h <;> cases h
  | loadFile content =>
    cases content with
    | none => cases h
    | some text =>
      simp only [perform, Reply.ofLoad] at h
      split at h <;> cases h
  | _ => cases h

/-- Where no cell is raw and only numerals are fed, no cell becomes raw, and no call fails with a fault
    about a token. -/
theorem numbers_perform {c : Call} (h : e.machine.Numbers)
    (hc : c.drives = true ∨ ∃ tokens, c = .feed tokens ∧ ∀ t ∈ tokens, Word.Numeric t) :
    (e.perform c).1.machine.Numbers ∧ (∀ k ∈ e.attempts c, k.Numbers) ∧
      ∀ q, (e.perform c).2 = .went (.failed (.fault q)) → q.fault.token? = none := by
  have htried : ∀ k ∈ e.attempts c, k.Numbers := h.chain (chain_attempts e c)
  refine ⟨?_, htried, fun q hq => ?_⟩
  · rcases hc with hc | ⟨tokens, rfl, htokens⟩
    · exact (h.iterate _).of_alike (drive_exact e hc)
    · exact ⟨h.cells, List.forall_mem_append.2 ⟨h.input, htokens⟩⟩
  · cases ht : q.fault.token? with
    | none => rfl
    | some t =>
      rcases failed_reply hq with ⟨k, hk, hf⟩ | hne
      · obtain ⟨a, hraw⟩ := names_cycle k q t hf ht
        exact absurd hraw ((htried k hk).cells a t)
      · exact absurd rfl (hne q)

theorem numbers_performAll {cs : List Call} (h : e.machine.Numbers)
    (hcs : ∀ c ∈ cs, c.drives = true ∨ ∃ tokens, c = .feed tokens ∧ ∀ t ∈ tokens, Word.Numeric t) :
    (e.performAll cs).machine.Numbers ∧ (∀ k ∈ tried (e.history cs), k.Numbers) ∧
      ∀ r ∈ e.history cs, ∀ q, r.reply = .went (.failed (.fault q)) → q.fault.token? = none := by
  induction cs generalizing e with
  | nil => exact ⟨h, List.forall_mem_nil _, List.forall_mem_nil _⟩
  | cons c cs ih =>
    obtain ⟨hc, hcs⟩ := List.forall_mem_cons.1 hcs
    obtain ⟨hone, htried, hreply⟩ := numbers_perform h hc
    obtain ⟨hall, hrest, hreplies⟩ := ih hone hcs
    exact ⟨hall, List.forall_mem_append.2 ⟨htried, hrest⟩, List.forall_mem_cons.2 ⟨hreply, hreplies⟩⟩

/-- Behind a load, and whatever the machine is made to do and is fed, the token in a raw cell is no
    numeral. It is the word that the image has there, or an instruction has read it there, and nothing
    has been put there since. So if the words of the image are numerals, as those of every program
    are, and so are the tokens, no cell is ever raw and nothing fails with a fault about a token. -/
theorem raw_cells (e : Emulator) {load : Call} {i : Image} (hload : (e.perform load).2 = .loaded)
    (hi : (e.perform load).1.image = some i) (cs : List Call)
    (hcs : ∀ c ∈ cs, c.drives = true ∨ ∃ tokens, c = .feed tokens) :
    let start := (e.perform load).1
    let history := start.history cs
    (∀ a t, (start.performAll cs).machine.memory.Raw a t →
      Word.parse t = .ok none ∧ Origin i.Raw (tried history) a t) ∧
    ((∀ w ∈ i.words, Word.Numeric w) → (∀ t ∈ start.machine.input, Word.Numeric t) →
      (∀ tokens, Call.feed tokens ∈ cs → ∀ t ∈ tokens, Word.Numeric t) →
        (∀ a t, ¬ (start.performAll cs).machine.memory.Raw a t) ∧
          (∀ k ∈ tried history, ∀ a t, ¬ k.memory.Raw a t) ∧
          ∀ r ∈ history, ∀ q, r.reply = .went (.failed (.fault q)) → q.fault.token? = none) ∧
    ∀ p : Program, ∀ w ∈ p.toImage.words, Word.Numeric w := by
  intro start history
  have hstart : ∀ {a t}, start.machine.memory.Raw a t → i.Raw a t := raw_of_loaded hload hi
  refine ⟨fun a t h => ?_, fun hwords hinput hfed => ?_, fun p w hw => ?_⟩
  · have horigin : Origin i.Raw ([] ++ tried history) a t :=
      (origin_performAll hcs h).append fun h => .kept (hstart h) (List.forall_mem_nil _)
    refine ⟨horigin.parse ?_, horigin⟩
    rintro _ _ ⟨_, -, -, hp⟩
    exact hp
  · have hnumbers : start.machine.Numbers := by
      refine ⟨fun a t h => ?_, hinput⟩
      obtain ⟨n, -, hw, hp⟩ := hstart h
      exact Word.parse_eq_none_iff.1 hp (hwords t (List.mem_of_getElem? hw))
    obtain ⟨hall, htried, hreplies⟩ := numbers_performAll hnumbers fun c hc =>
      (hcs c hc).imp_right fun ⟨tokens, h⟩ => ⟨tokens, h, hfed tokens (h ▸ hc)⟩
    exact ⟨hall.cells, fun k hk => (htried k hk).cells, hreplies⟩
  · rw [Program.words_toImage] at hw
    obtain ⟨n, -, rfl⟩ := List.mem_map.1 hw
    exact Word.numeric_render n

/-- An image whose last word is raw, and whose first reads a token that is raw into the same cell. -/
theorem raw_cells_overwritten :
    let i : Image := ⟨["1003", "1103", "4300", "word"], 0, .empty⟩
    let e := new (.zeros 4 (by decide)) [] none
    let cs := [Call.feed ["token"], .run none 9]
    (e.perform (.load i)).2 = .loaded ∧ (e.perform (.load i)).1.image = some i ∧
      (∀ c ∈ cs, c.drives = true ∨ ∃ tokens, c = .feed tokens) ∧
      (e.perform (.load i)).1.machine.memory.Raw 3 "word" ∧
      ((e.perform (.load i)).1.performAll cs).machine.memory.Raw 3 "token" ∧
      Origin i.Raw (tried ((e.perform (.load i)).1.history cs)) 3 "token" := by
  intro i e cs
  have hload : (e.perform (.load i)).2 = .loaded := by decide +kernel
  have hi : (e.perform (.load i)).1.image = some i := by decide +kernel
  have hcs : ∀ c ∈ cs, c.drives = true ∨ ∃ tokens, c = .feed tokens := by
    intro c hc
    rcases List.mem_pair.1 hc with rfl | rfl
    · exact .inr ⟨_, rfl⟩
    · exact .inl rfl
  have hbefore : (e.perform (.load i)).1.machine.memory.Raw 3 "word" := by
    unfold Memory.Raw
    decide +kernel
  have hraw : ((e.perform (.load i)).1.performAll cs).machine.memory.Raw 3 "token" := by
    unfold Memory.Raw
    decide +kernel
  exact ⟨hload, hi, hcs, hbefore, hraw, ((raw_cells e hload hi cs hcs).1 3 "token" hraw).2⟩

end Emulator

end DecimalMachine
