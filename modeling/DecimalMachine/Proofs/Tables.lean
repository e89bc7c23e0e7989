import DecimalMachine.Proofs.Findings
import DecimalMachine.Proofs.SourceNames
/-
  Tables: what the first pass makes of the lines of a source. The symbols are the variables of the
  fitting lines (`Lists.declareAll`), a label is bound to the instruction behind its last definition
  (`find?_bindAll`), and the only failures are the declarations that are refused
  (`failures_tabulate`). Where there are none the tables are those of the lines (`tabulate_of`).
-/
namespace DecimalMachine

namespace Assembly

open Source

/-! ## First pass -/

theorem declareAll_cons (symbols : List Symbol) (l : Line) (ls : List Line) :
    declareAll symbols (l :: ls) = ((declareAll (declare symbols l).1 ls).1,
      (declare symbols l).2 ++ (declareAll (declare symbols l).1 ls).2) := rfl

theorem bindAll_cons (labels : List Label) (address : Nat) (l : Line) (ls : List Line) :
    bindAll labels address (l :: ls) =
      ((bindAll (bind labels address l).1 (if l.isCode then address + 1 else address) ls).1,
        (bind labels address l).2 ++
          (bindAll (bind labels address l).1 (if l.isCode then address + 1 else address) ls).2) :=
  rfl

/-- The symbols are the variables of some lines, one after the other from address zero on, with
    their first values. -/
structure Lists (lines : List Line) (symbols : List Symbol) : Prop where
  names : symbols.map Symbol.name = Source.declared lines
  addresses : ∀ i (h : i < symbols.length), symbols[i].address = i
  initials : ∀ s ∈ symbols, Source.initial? lines s.name = some s.initial ∧
    Word.inRange s.initial = true

theorem Lists.initials_concat {lines : List Line} {symbols : List Symbol}
    (h : Lists lines symbols) (l : Line) {s : Symbol} (hs : s ∈ symbols) :
    Source.initial? (lines ++ [l]) s.name = some s.initial ∧ Word.inRange s.initial = true := by
  obtain ⟨hi, hr⟩ := h.initials s hs
  rw [Source.initial?_concat, hi]
  exact ⟨rfl, hr⟩

theorem declare_eq (symbols : List Symbol) (l : Line) :
    declare symbols l =
      match l.declared? with
      | some (name, value) =>
        if symbols.any (·.name == name) then
          (symbols,
            [.remark s!"{l.location.render}: variable '{name}' already declared, ignored"])
        else if !Word.inRange value then (symbols, [l.complain (.initialValue name value)])
        else (symbols ++ [⟨name, symbols.length, value, l.location⟩], [])
      | none => (symbols, []) := by
  unfold Assembly.declare Line.declared?
  cases l.statement <;> rfl

theorem any_name_eq {lines : List Line} {symbols : List Symbol} (h : Lists lines symbols)
    (name : String) : symbols.any (·.name == name) = decide (name ∈ declared lines) := by
  rw [← h.names, Bool.eq_iff_iff]
  simp

/-- A new variable with a value that is a word comes behind the others. -/
theorem Lists.add {lines : List Line} {symbols : List Symbol} (h : Lists lines symbols) {l : Line}
    {name : String} {value : Int} (hd : l.declared? = some (name, value))
    (hm : name ∉ declared lines) (hr : Word.inRange value = true) :
    Lists (lines ++ [l]) (symbols ++ [⟨name, symbols.length, value, l.location⟩]) := by
  refine ⟨?_, ?_, ?_⟩
  · rw [declared_concat, hd, List.map_append, h.names]
    exact (if_neg hm).symm
  · intro i hi
    rw [List.getElem_append]
    split
    · exact h.addresses i _
    · rw [List.length_append, List.length_singleton] at hi
      have hlast : i = symbols.length := by omega
      simp [hlast]
  · intro s hs
    rcases List.mem_append.1 hs with hs | hs
    · exact h.initials_concat l hs
    · obtain rfl := List.mem_singleton.1 hs
      have hn : initial? lines name = none := by
        rw [mem_declared] at hm
        simpa using hm
      rw [initial?_concat, hn, hd]
      simp [hr]

/-- A line that declares no name that is new leaves the symbols as they are. -/
theorem Lists.keep {lines : List Line} {symbols : List Symbol} (h : Lists lines symbols) {l : Line}
    (hd : ∀ d, l.declared? = some d → d.1 ∈ declared lines) : Lists (lines ++ [l]) symbols := by
  refine ⟨?_, h.addresses, fun s => h.initials_concat l⟩
  rw [h.names, declared_concat]
  cases hl : l.declared? with
  | none => rfl
  | some d => exact (if_pos (hd d hl)).symm

/-- The error of a line. -/
abbrev failureOf (l : Line) (c : Complaint) : AssemblyError := .diagnostic (l.diagnose c)

/-- A declaration adds a variable, repeats one or is refused. -/
theorem Lists.declare {before : List Line} {symbols : List Symbol}
    (h : Lists (fitting before) symbols) (l : Line) :
    Lists (fitting (before ++ [l])) (declare symbols l).1 ∧
      (declare symbols l).2.filterMap Finding.failure? =
        ((misdeclared? before l).map (failureOf l)).toList := by
  rw [declare_eq, fitting_concat]
  unfold misdeclared? Line.misfits
  cases hd : l.declared? with
  | none => exact ⟨h.keep (by simp [hd]), rfl⟩
  | some d =>
    obtain ⟨name, value⟩ := d
    dsimp only
    rw [any_name_eq h, Option.any_some]
    by_cases hm : name ∈ declared (fitting before)
    · simp only [hm, decide_true, Bool.or_true, if_true]
      refine ⟨?_, rfl⟩
      cases hr : Word.inRange value with
      | false => exact h
      | true => exact h.keep (by simp [hd, hm])
    · simp only [hm, decide_false, Bool.or_false, Bool.false_eq_true, if_false]
      cases hr : Word.inRange value with
      | false => exact ⟨h, rfl⟩
      | true => exact ⟨h.add hd hm hr, rfl⟩

theorem Lists.declareAll {before ls : List Line} {symbols : List Symbol}
    (h : Lists (fitting before) symbols) :
    Lists (fitting (before ++ ls)) (declareAll symbols ls).1 ∧
      (declareAll symbols ls).2.filterMap Finding.failure? =
        (ls.zipIdx before.length).filterMap fun (l, i) =>
          (misdeclared? ((before ++ ls).take i) l).map (failureOf l) := by
  induction ls generalizing before symbols with
  | nil =>
    rw [List.append_nil]
    exact ⟨h, rfl⟩
  | cons l ls ih =>
    obtain ⟨hl, hf⟩ := h.declare l
    obtain ⟨hls, hfs⟩ := ih hl
    rw [List.append_assoc, List.singleton_append] at hls hfs
    refine ⟨hls, ?_⟩
    rw [declareAll_cons, List.filterMap_append, hf, hfs, List.length_append, List.length_singleton,
      List.zipIdx_cons, List.filterMap_cons]
    dsimp only
    rw [List.take_left]
    cases misdeclared? before l <;> rfl

theorem lists_nil : Lists (fitting []) [] := ⟨rfl, nofun, nofun⟩

/-- The symbols of a source, whatever is wrong with it, and what is wrong with its declarations. -/
theorem lists_declareAll (lines : List Line) :
    Lists (fitting lines) (declareAll [] lines).1 ∧
      (declareAll [] lines).2.filterMap Finding.failure? =
        (declarationErrors lines).map .diagnostic := by
  obtain ⟨hl, hf⟩ := @Lists.declareAll [] lines [] lists_nil
  refine ⟨hl, hf.trans ?_⟩
  unfold declarationErrors
  rw [List.map_filterMap]
  congr 1
  funext p
  exact (Option.map_map ..).symm

/-- Without errors every line declares what it says. -/
theorem declared_of_no_errors {lines : List Line} (h : declarationErrors lines = []) :
    declared (fitting lines) = declared lines ∧
      ∀ name, initial? (fitting lines) name = initial? lines name := by
  refine declared_fitting fun before l behind he => ?_
  have hmem : (l, before.length) ∈ lines.zipIdx := by
    rw [List.mk_mem_zipIdx_iff_getElem?, he]
    simp
  have hnone := List.filterMap_eq_nil_iff.1 h _ hmem
  rw [he] at hnone
  simpa using hnone

/-! ## Labels -/

theorem find?_putLabel (new : Label) (labels : List Label) (name : String) :
    (putLabel new labels).find? (·.name == name) =
      if new.name = name then some new else labels.find? (·.name == name) := by
  induction labels with
  | nil =>
    unfold putLabel
    by_cases h : new.name = name <;> simp [h]
  | cons l ls ih =>
    unfold putLabel
    by_cases hl : l.name = new.name
    · rw [if_pos hl]
      by_cases h : new.name = name
      · simp [h]
      · simp [h, hl]
    · rw [if_neg hl, List.find?_cons, List.find?_cons, ih]
      by_cases h : new.name = name
      · have hne : (l.name == name) = false := by
          simpa using fun he : l.name = name => hl (he.trans h.symm)
        rw [hne, if_pos h]
      · simp [h]

theorem bind_eq (labels : List Label) (address : Nat) (l : Line) :
    (bind labels address l).1 =
      match l.defined? with
      | some x => putLabel ⟨x, address, l.location⟩ labels
      | none => labels := by
  unfold Assembly.bind Line.defined?
  cases l.statement <;> rfl

/-- A label is bound to the instruction behind its last definition. -/
theorem find?_bindAll (labels : List Label) (address : Nat) (ls : List Line) (name : String) :
    ((bindAll labels address ls).1.find? (·.name == name)).map Label.address =
      ((Source.target? ls name).map (address + ·)).or
        ((labels.find? (·.name == name)).map Label.address) := by
  induction ls generalizing labels address with
  | nil => rfl
  | cons l ls ih =>
    rw [bindAll_cons, ih, bind_eq, Source.target?_cons]
    cases ht : Source.target? ls name with
    | some i =>
      cases l.isCode with
      | true => simp [Nat.add_assoc, Nat.add_comm i 1]
      | false => simp
    | none =>
      cases hd : l.defined? with
      | none => simp
      | some x =>
        dsimp only
        rw [find?_putLabel]
        by_cases hx : x = name
        · simp [hx]
        · simp [hx]

theorem map_name_putLabel (new : Label) (labels : List Label) :
    (putLabel new labels).map Label.name =
      if new.name ∈ labels.map Label.name then labels.map Label.name
      else labels.map Label.name ++ [new.name] := by
  induction labels with
  | nil => rfl
  | cons l ls ih =>
    unfold putLabel
    by_cases h : l.name = new.name
    · simp [h]
    · rw [if_neg h, List.map_cons, ih]
      by_cases hm : new.name ∈ ls.map Label.name <;> simp [hm, Ne.symm h]

/-- The labels are in the order of their first definitions. -/
theorem map_name_bindAll {before : List Line} {labels : List Label}
    (h : labels.map Label.name = defined before) (address : Nat) (ls : List Line) :
    (bindAll labels address ls).1.map Label.name = defined (before ++ ls) := by
  induction ls generalizing before labels address with
  | nil =>
    rw [List.append_nil]
    exact h
  | cons l ls ih =>
    have hl : (bind labels address l).1.map Label.name = defined (before ++ [l]) := by
      rw [bind_eq, defined_concat]
      cases l.defined? with
      | none => exact h
      | some x =>
        dsimp only
        rw [map_name_putLabel, h]
    have hall := ih hl (if l.isCode then address + 1 else address)
    rw [List.append_assoc] at hall
    exact hall

/-- Labels draw warnings and no errors. -/
theorem failures_bindAll (labels : List Label) (address : Nat) (ls : List Line) :
    (bindAll labels address ls).2.filterMap Finding.failure? = [] := by
  induction ls generalizing labels address with
  | nil => rfl
  | cons l ls ih =>
    have hl : (bind labels address l).2.filterMap Finding.failure? = [] := by
      unfold Assembly.bind
      split
      · dsimp only
        split <;> rfl
      · rfl
    rw [bindAll_cons, List.filterMap_append, hl, ih, List.append_nil]

/-! ## Both tables -/

/-- The tables are those of some lines. -/
structure Tables.Of (lines : List Line) (t : Tables) : Prop where
  symbols : Lists lines t.symbols
  labels : ∀ x, (t.labels.find? (·.name == x)).map Label.address =
    (Source.target? lines x).map (Source.origin lines + ·)

/-- The symbols are in the order of their addresses. -/
theorem Lists.ascending {lines : List Line} {symbols : List Symbol} (h : Lists lines symbols) :
    symbols.Pairwise (·.address ≤ ·.address) := by
  refine List.pairwise_iff_getElem.2 fun i j hi hj hij => ?_
  rw [h.addresses i hi, h.addresses j hj]
  exact Nat.le_of_lt hij

/-- Putting the symbols in the order of their addresses changes nothing. -/
theorem Tables.Of.symbolsByAddress {lines : List Line} {p : Program}
    (h : Tables.Of lines ⟨p.symbols, p.labels⟩) : p.symbolsByAddress = p.symbols :=
  List.mergeSort_of_pairwise (by simpa using h.symbols.ascending)

theorem Lists.length {lines : List Line} {symbols : List Symbol} (h : Lists lines symbols) :
    symbols.length = Source.origin lines := by
  unfold Source.origin
  rw [← h.names, List.length_map]

/-- The symbol of a variable is at the place of its name. -/
theorem Lists.address_eq {lines : List Line} {symbols : List Symbol} (h : Lists lines symbols)
    {v : Symbol} (hv : v ∈ symbols) : v.address = (Source.declared lines).idxOf v.name := by
  obtain ⟨i, hi, rfl⟩ := List.mem_iff_getElem.1 hv
  have hn : i < (symbols.map Symbol.name).length := by rwa [List.length_map]
  have hnodup : (symbols.map Symbol.name).Nodup := h.names ▸ Source.nodup_declared lines
  rw [h.addresses, ← h.names]
  simpa using (hnodup.idxOf_getElem i hn).symm

theorem Lists.mem_declared {lines : List Line} {symbols : List Symbol} (h : Lists lines symbols)
    {x : String} : x ∈ Source.declared lines ↔ ∃ v ∈ symbols, v.name = x := by
  rw [← h.names, List.mem_map]

/-- The tables of a source, whatever is wrong with it. -/
theorem tabulate_fitting (lines : List Line) : (tabulate lines).1.Of (fitting lines) := by
  have hlists := (lists_declareAll lines).1
  refine ⟨hlists, fun x => ?_⟩
  have hfind := find?_bindAll [] (declareAll [] lines).1.length lines x
  rw [hlists.length] at hfind
  show ((bindAll [] (declareAll [] lines).1.length lines).1.find? (·.name == x)).map
    Label.address = _
  rw [hlists.length, hfind, target?_fitting]
  cases (target? lines x).map (origin (fitting lines) + ·) <;> rfl

theorem map_name_labels (lines : List Line) :
    (tabulate lines).1.labels.map Label.name = defined lines :=
  @map_name_bindAll [] [] rfl _ lines

/-- What comes up in the first pass comes up at the declarations and then at the labels. -/
theorem filterMap_tabulate {α : Type} {f : Finding → Option α} (hf : ∀ text, f (.remark text) = none)
    (lines : List Line) : (tabulate lines).2.filterMap f = (declareAll [] lines).2.filterMap f ++
      (bindAll [] (declareAll [] lines).1.length lines).2.filterMap f := by
  show ((declareAll [] lines).2 ++ (bindAll [] (declareAll [] lines).1.length lines).2 ++
    [Finding.remark _]).filterMap f = _
  rw [List.filterMap_append, List.filterMap_append, List.filterMap_cons, hf, List.filterMap_nil,
    List.append_nil]

/-- What is wrong with a source in its first pass are declarations. -/
theorem failures_tabulate (lines : List Line) :
    (tabulate lines).2.filterMap Finding.failure? =
      (declarationErrors lines).map .diagnostic := by
  rw [filterMap_tabulate fun _ => rfl, (lists_declareAll lines).2, failures_bindAll, List.append_nil]

theorem tabulate_of {lines : List Line}
    (hf : ∀ f ∈ (tabulate lines).2, f.isError = false) : (tabulate lines).1.Of lines := by
  have hnone : declarationErrors lines = [] := by
    have hfail : (tabulate lines).2.filterMap Finding.failure? = [] := by
      refine List.filterMap_eq_nil_iff.2 fun f hm => ?_
      have hq := hf f hm
      rw [Finding.isError_eq] at hq
      simpa using hq
    rw [failures_tabulate] at hfail
    exact List.map_eq_nil_iff.1 hfail
  obtain ⟨hd, hi⟩ := declared_of_no_errors hnone
  have h := tabulate_fitting lines
  refine ⟨⟨h.symbols.names.trans hd, h.symbols.addresses, fun s hs => ?_⟩, fun x => ?_⟩
  · rw [← hi]
    exact h.symbols.initials s hs
  · rw [h.labels, target?_fitting]
    unfold origin
    rw [hd]

end Assembly

end DecimalMachine
