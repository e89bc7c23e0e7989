import Mathlib.Data.List.Induction
import DecimalMachine.Assembly
/-
  Names of a source: what they mean, said from the lines alone. The variables are the declared names
  in the order of their first declarations; a label stands for the number of instructions before its
  last definition (`exists_of_target?`); an operand is a literal, a label or a variable, the first of
  these that it can be (`meaning`). A declaration whose value is no word declares nothing, so that
  the names of a source with such lines are those of its `fitting` lines. What is wrong with a line is
  said in the same way (`misdeclared?`, `complaint?`).
-/
namespace DecimalMachine

/-! ## What lines declare and define -/

namespace Line

/-- The variable that a line declares, and the value it gives it. -/
def declared? (l : Line) : Option (String × Int) :=
  match l.statement with
  | .variable name value => some (name, value)
  | _ => none

/-- The label that a line defines. -/
def defined? (l : Line) : Option String :=
  match l.statement with
  | .label name => some name
  | _ => none

/-- The line gives a variable a value that is no word. -/
def misfits (l : Line) : Bool := l.declared?.any fun d => !Word.inRange d.2

/-- A diagnostic about this line. -/
def diagnose (l : Line) (c : Complaint) : Diagnostic := ⟨c, some l.location, some (shown l.raw)⟩

theorem statement_of_declared? {l : Line} {d : String × Int} (h : l.declared? = some d) :
    l.statement = .variable d.1 d.2 := by
  unfold declared? at h
  split at h
  · rename_i hs
    obtain rfl := Option.some.inj h
    exact hs
  · cases h

theorem isCode_of_declared? {l : Line} {d : String × Int} (h : l.declared? = some d) :
    l.isCode = false := by
  unfold isCode
  rw [statement_of_declared? h]

theorem defined?_of_declared? {l : Line} {d : String × Int} (h : l.declared? = some d) :
    l.defined? = none := by
  unfold defined?
  rw [statement_of_declared? h]

theorem declared?_of_misfits {l : Line} (h : l.misfits = true) :
    ∃ d, l.declared? = some d ∧ Word.inRange d.2 = false := by
  unfold misfits at h
  cases hd : l.declared? with
  | none => rw [hd] at h; cases h
  | some d =>
    rw [hd] at h
    exact ⟨d, rfl, by simpa using h⟩

end Line

namespace Source

/-- The lines with an instruction. -/
def code (lines : List Line) : List Line := lines.filter Line.isCode

/-- The names of the variables in the order of their first declarations. -/
def declared (lines : List Line) : List String :=
  (lines.filterMap fun l => l.declared?.map Prod.fst).eraseDups

/-- The names of the labels in the order of their first definitions. -/
def defined (lines : List Line) : List String := (lines.filterMap Line.defined?).eraseDups

/-- The names that an operand can refer to. -/
def names (lines : List Line) : List String := defined lines ++ declared lines

/-- The address of the first instruction: one cell before it for every variable. -/
def origin (lines : List Line) : Nat := (declared lines).length

/-- The value in the first declaration of a variable. -/
def initial? (lines : List Line) (name : String) : Option Int :=
  lines.findSome? fun l => (l.declared?.filter (·.1 == name)).map Prod.snd

/-- How many instructions come before the definition of a label, the last if there are several. -/
def target? : List Line → String → Option Nat
  | [], _ => none
  | l :: ls, name =>
    match target? ls name with
    | some i => some (if l.isCode then i + 1 else i)
    | none => if l.defined? = some name then some 0 else none

theorem target?_cons (l : Line) (ls : List Line) (name : String) :
    target? (l :: ls) name =
      match target? ls name with
      | some i => some (if l.isCode then i + 1 else i)
      | none => if l.defined? = some name then some 0 else none := rfl

theorem eraseDups_concat (xs : List String) (x : String) :
    (xs ++ [x]).eraseDups = if x ∈ xs.eraseDups then xs.eraseDups else xs.eraseDups ++ [x] := by
  rw [List.eraseDups_append]
  by_cases h : x ∈ xs <;> simp [h, List.removeAll, List.mem_eraseDups, List.eraseDups_cons]

theorem declared_concat (lines : List Line) (l : Line) :
    declared (lines ++ [l]) =
      match l.declared? with
      | some d => if d.1 ∈ declared lines then declared lines else declared lines ++ [d.1]
      | none => declared lines := by
  unfold declared
  rw [List.filterMap_append, List.filterMap_cons, List.filterMap_nil]
  cases l.declared? with
  | none => simp
  | some d => exact eraseDups_concat _ d.1

theorem defined_concat (lines : List Line) (l : Line) :
    defined (lines ++ [l]) =
      match l.defined? with
      | some x => if x ∈ defined lines then defined lines else defined lines ++ [x]
      | none => defined lines := by
  unfold defined
  rw [List.filterMap_append, List.filterMap_cons, List.filterMap_nil]
  cases l.defined? with
  | none => simp
  | some x => exact eraseDups_concat _ x

theorem nodup_eraseDups (xs : List String) : xs.eraseDups.Nodup := by
  induction xs using List.reverseRecOn with
  | nil => exact List.nodup_nil
  | append_singleton xs x ih =>
    rw [eraseDups_concat]
    split
    · exact ih
    · rename_i hx
      refine List.nodup_append.2 ⟨ih, by simp, fun y hy z hz he => ?_⟩
      obtain rfl := List.mem_singleton.1 hz
      exact hx (he ▸ hy)

theorem eraseDups_of_nodup {xs : List String} (h : xs.Nodup) : xs.eraseDups = xs := by
  induction xs using List.reverseRecOn with
  | nil => rfl
  | append_singleton xs x ih =>
    obtain ⟨hxs, -, hne⟩ := List.nodup_append.1 h
    rw [eraseDups_concat, ih hxs, if_neg fun hx => hne x hx x List.mem_cons_self rfl]

theorem nodup_declared (lines : List Line) : (declared lines).Nodup := nodup_eraseDups _

theorem nodup_defined (lines : List Line) : (defined lines).Nodup := nodup_eraseDups _

theorem mem_declared {lines : List Line} {name : String} :
    name ∈ declared lines ↔ (initial? lines name).isSome = true := by
  unfold declared initial?
  rw [List.mem_eraseDups, List.findSome?_isSome_iff, List.mem_filterMap]
  constructor
  · rintro ⟨l, hl, hn⟩
    refine ⟨l, hl, ?_⟩
    cases hd : l.declared? with
    | none => rw [hd] at hn; cases hn
    | some d =>
      rw [hd] at hn
      obtain rfl := Option.some.inj hn
      simp
  · rintro ⟨l, hl, hn⟩
    refine ⟨l, hl, ?_⟩
    cases hd : l.declared? with
    | none => rw [hd] at hn; cases hn
    | some d =>
      rw [hd] at hn
      by_cases h : d.1 = name
      · rw [← h]
        rfl
      · simp [h] at hn

theorem initial?_concat (lines : List Line) (l : Line) (name : String) :
    initial? (lines ++ [l]) name =
      (initial? lines name).or ((l.declared?.filter (·.1 == name)).map Prod.snd) := by
  unfold initial?
  rw [List.findSome?_append]
  congr 1
  rw [List.findSome?_cons]
  cases (l.declared?.filter (·.1 == name)).map Prod.snd <;> rfl

/-- The first value of a variable is that of the first pair with its name. -/
theorem initial?_eq_find? (lines : List Line) (name : String) :
    initial? lines name =
      ((lines.filterMap Line.declared?).find? (·.1 == name)).map Prod.snd := by
  unfold initial?
  induction lines with
  | nil => rfl
  | cons l ls ih =>
    rw [List.findSome?_cons, List.filterMap_cons, ih]
    cases l.declared? with
    | none => rfl
    | some d =>
      dsimp only
      rw [List.find?_cons, Option.filter_some]
      cases d.1 == name <;> rfl

/-! ## Labels -/

theorem target?_eq_none_iff {lines : List Line} {name : String} :
    target? lines name = none ↔ ∀ l ∈ lines, l.defined? ≠ some name := by
  induction lines with
  | nil => simp [target?]
  | cons l ls ih =>
    rw [target?_cons, List.forall_mem_cons, ← ih]
    cases target? ls name with
    | some i => simp
    | none => simp

/-- A label stands for the number of instructions before its last definition. -/
theorem exists_of_target? {lines : List Line} {name : String} {i : Nat}
    (h : target? lines name = some i) :
    ∃ before l behind, lines = before ++ l :: behind ∧ l.defined? = some name ∧
      (∀ m ∈ behind, m.defined? ≠ some name) ∧ i = (code before).length := by
  induction lines generalizing i with
  | nil => cases h
  | cons l ls ih =>
    rw [target?_cons] at h
    cases ht : target? ls name with
    | some j =>
      rw [ht] at h
      obtain ⟨before, m, behind, rfl, hm, hlast, rfl⟩ := ih ht
      refine ⟨l :: before, m, behind, rfl, hm, hlast, ?_⟩
      obtain rfl := Option.some.inj h
      unfold code
      rw [List.filter_cons]
      cases l.isCode <;> rfl
    | none =>
      rw [ht] at h
      by_cases hl : l.defined? = some name
      · simp only [hl, if_true] at h
        exact ⟨[], l, ls, rfl, hl, target?_eq_none_iff.1 ht, (Option.some.inj h).symm⟩
      · simp [hl] at h

/-! ## Operands -/

/-- What an operand stands for, and how that is found out. It is a numeral, a label or a variable;
    the name of nothing stands for zero. -/
def meaning (lines : List Line) (x : String) : Except DigitLimit (Nat × Resolution) :=
  if Text.isDigits x.toList then (Text.natOfDigits x.toList).map fun n => (n, .literal)
  else
    match target? lines x with
    | some i => .ok (origin lines + i, .label)
    | none =>
      if x ∈ declared lines then .ok ((declared lines).idxOf x, .variable) else .ok (0, .undefined)

/-- What an operand stands for, and how that is found out: it is a numeral, a label or, when there
    is no such label, a variable. -/
inductive Means (lines : List Line) (x : String) : Nat → Resolution → Prop
  | literal {n : Nat} (hx : Text.isDigits x.toList = true)
      (hn : Text.natOfDigits x.toList = .ok n) : Means lines x n .literal
  | label {i : Nat} (hx : Text.isDigits x.toList = false) (hi : target? lines x = some i) :
      Means lines x (origin lines + i) .label
  | cell (hx : Text.isDigits x.toList = false) (hi : target? lines x = none)
      (hv : x ∈ declared lines) : Means lines x ((declared lines).idxOf x) .variable

theorem target?_of_means {lines : List Line} {x : String} {n : Nat}
    (h : Means lines x n .label) : ∃ i, target? lines x = some i ∧ n = origin lines + i := by
  cases h with
  | label _ hi => exact ⟨_, hi, rfl⟩

theorem mem_of_means {lines : List Line} {x : String} {n : Nat}
    (h : Means lines x n .variable) :
    x ∈ declared lines ∧ n = (declared lines).idxOf x := by
  cases h with
  | cell _ _ hv => exact ⟨hv, rfl⟩

theorem means_of_meaning {lines : List Line} {x : String} {n : Nat} {res : Resolution}
    (h : meaning lines x = .ok (n, res)) (hu : res ≠ .undefined) : Means lines x n res := by
  unfold meaning at h
  split at h
  · rename_i hd
    cases hn : Text.natOfDigits x.toList with
    | error e => rw [hn] at h; cases h
    | ok k =>
      rw [hn] at h
      cases h
      exact .literal hd hn
  · rename_i hd
    have hd : Text.isDigits x.toList = false := by simpa using hd
    split at h
    · rename_i i hi
      cases h
      exact .label hd hi
    · rename_i hi
      split at h
      · rename_i hv
        cases h
        exact .cell hd hi hv
      · cases h
        exact absurd rfl hu

/-! ## Declarations that are refused -/

/-- The lines without the declarations whose value is no word: such a line declares nothing. -/
def fitting (lines : List Line) : List Line := lines.filter fun l => !l.misfits

/-- What is wrong with a declaration, given the lines before it: its value is no word, and none of
    those lines declares the name with a value that is one. -/
def misdeclared? (before : List Line) (l : Line) : Option Complaint :=
  match l.declared? with
  | some (name, value) =>
    if Word.inRange value || name ∈ declared (fitting before) then none
    else some (.initialValue name value)
  | none => none

/-- The diagnostics about declarations, in the order of their lines. -/
def declarationErrors (lines : List Line) : List Diagnostic :=
  lines.zipIdx.filterMap fun (l, i) => (misdeclared? (lines.take i) l).map l.diagnose

/-! ## Instructions that are refused -/

/-- What is wrong with an operand: it is the name of nothing, where that is not allowed, or it makes
    the word too wide. -/
def operandComplaint? (strict : Bool) (lines : List Line) (op : Opcode) (x : String) :
    Option Complaint :=
  match meaning lines x with
  | .error _ => none
  | .ok (n, res) =>
    let word := Word.join op.code n
    if strict && res = .undefined then
      some (.undefinedSymbol x (Text.closeNames 3 x (names lines)))
    else if Word.greatest < word then some (.wideWord op.mnemonic n word)
    else none

/-- What is wrong with an instruction: there is no such operation, it lacks an operand that it
    needs, or something is wrong with that operand. -/
def complaint? (strict : Bool) (lines : List Line) (l : Line) : Option Complaint :=
  match l.statement with
  | .instruction mnemonic operand _ =>
    match Opcode.ofMnemonic? mnemonic with
    | none =>
      let upper := String.ofList (Text.upper mnemonic.toList)
      some (.unknownInstruction mnemonic (Text.closeNames 3 upper Opcode.allMnemonics))
    | some op =>
      if !op.takesOperand then none
      else
        match operand with
        | none => some (.missingOperand op.mnemonic)
        | some x => operandComplaint? strict lines op x
  | _ => none

/-- The diagnostics about instructions, in the order of their lines. Declarations that are refused
    declare nothing. -/
def instructionErrors (strict : Bool) (lines : List Line) : List Diagnostic :=
  lines.filterMap fun l => (complaint? strict (fitting lines) l).map l.diagnose

/-! ## Fitting lines -/

theorem fitting_concat (lines : List Line) (l : Line) :
    fitting (lines ++ [l]) = if l.misfits then fitting lines else fitting lines ++ [l] := by
  unfold fitting
  rw [List.filter_append]
  cases h : l.misfits <;> simp [h]

theorem target?_fitting (lines : List Line) (name : String) :
    target? (fitting lines) name = target? lines name := by
  induction lines with
  | nil => rfl
  | cons l ls ih =>
    unfold fitting at ih ⊢
    rw [List.filter_cons, target?_cons, ← ih]
    cases h : l.misfits with
    | false => rfl
    | true =>
      obtain ⟨d, hd, -⟩ := Line.declared?_of_misfits h
      rw [Line.isCode_of_declared? hd, Line.defined?_of_declared? hd]
      show target? (ls.filter fun l => !l.misfits) name = _
      cases target? (ls.filter fun l => !l.misfits) name <;> rfl

theorem defined_fitting (lines : List Line) : defined (fitting lines) = defined lines := by
  unfold defined fitting
  rw [List.filterMap_filter]
  congr 2
  funext l
  cases h : l.misfits with
  | false => rfl
  | true =>
    obtain ⟨d, hd, -⟩ := Line.declared?_of_misfits h
    simp [Line.defined?_of_declared? hd]

/-- Where no declaration is refused, those whose value is no word only repeat others. -/
theorem declared_fitting {lines : List Line}
    (h : ∀ before l behind, lines = before ++ l :: behind → misdeclared? before l = none) :
    declared (fitting lines) = declared lines ∧
      ∀ name, initial? (fitting lines) name = initial? lines name := by
  induction lines using List.reverseRecOn with
  | nil => exact ⟨rfl, fun _ => rfl⟩
  | append_singleton lines l ih =>
    obtain ⟨ihd, ihi⟩ := ih fun before m behind he =>
      h before m (behind ++ [l]) (by rw [he, List.append_assoc, List.cons_append])
    rw [fitting_concat]
    cases hm : l.misfits with
    | false =>
      rw [if_neg Bool.false_ne_true, declared_concat, declared_concat, ihd]
      exact ⟨rfl, fun name => by rw [initial?_concat, initial?_concat, ihi]⟩
    | true =>
      obtain ⟨⟨x, v⟩, hd, hr⟩ := Line.declared?_of_misfits hm
      have hmem : x ∈ declared lines := by
        have hl := h lines l [] rfl
        unfold misdeclared? at hl
        by_contra hn
        simp [hd, show Word.inRange v = false from hr, ihd, hn] at hl
      rw [if_pos rfl, declared_concat, hd, ihd]
      refine ⟨(if_pos hmem).symm, fun name => ?_⟩
      rw [initial?_concat, ihi, hd]
      by_cases hname : x = name
      · obtain ⟨w, hw⟩ := Option.isSome_iff_exists.1 (mem_declared.1 (hname ▸ hmem))
        simp [hw]
      · have hnone : (some (x, v)).filter (·.1 == name) = none := by simp [Option.filter_some, hname]
        rw [hnone, Option.map_none, Option.or_none]

end Source

end DecimalMachine
