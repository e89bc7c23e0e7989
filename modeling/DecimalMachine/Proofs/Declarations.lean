import Mathlib.Data.List.Forall2
import DecimalMachine.Proofs.SourceText
/-
  Declarations that are written with any text for a name. What a line is read as depends on the
  line alone (`spells_of_readLine`), so it spells one statement at most, and a text that can be read
  spells what its lines are read as (`spells_of_readLines`). A text, an equals sign and a number are
  read as a declaration only if the text is a name, unless a comment begins in the text
  (`isName_of_spells`): a numeral has no equals sign in it, and so the one that was written is the
  one that is found.
-/
namespace DecimalMachine.Source

/-! ## Lines wherever they stand -/

/-- The place of a line does not matter for what it says. -/
theorem readLine_congr {file : String} {number : Int} {raw : String} {l : Line}
    (h : readLine file number raw = .ok l) (file' : String) (number' : Int) :
    ∃ l', readLine file' number' raw = .ok l' ∧ l'.statement = l.statement := by
  unfold readLine at h ⊢
  dsimp only at h ⊢
  split at h
  · obtain rfl := Except.ok.inj h
    rename_i hblank
    rw [if_pos hblank]
    exact ⟨_, rfl, rfl⟩
  · rename_i hblank
    rw [if_neg hblank]
    split at h
    · obtain rfl := Except.ok.inj h
      rename_i hcomment
      rw [if_pos hcomment]
      exact ⟨_, rfl, rfl⟩
    · rename_i hcomment
      rw [if_neg hcomment]
      split at h
      · cases h
      · cases h
      · obtain rfl := Except.ok.inj h
        exact ⟨_, rfl, rfl⟩

theorem spells_of_readLine {file : String} {number : Int} {line : String} {l : Line}
    (hl : ∀ c ∈ line.toList, Text.isLineBreak c = false)
    (h : readLine file number line = .ok l) : Spells line l.statement :=
  ⟨hl, readLine_congr h⟩

/-- A line says one thing. -/
theorem Spells.unique {line : String} {st st' : Statement} (h : Spells line st)
    (h' : Spells line st') : st = st' := by
  obtain ⟨l, hl, rfl⟩ := h.read "" 1
  obtain ⟨l', hl', rfl⟩ := h'.read "" 1
  rw [hl] at hl'
  rw [Except.ok.inj hl']

theorem forall₂_spells_unique {texts : List String} {sts sts' : List Statement}
    (h : List.Forall₂ Spells texts sts) (h' : List.Forall₂ Spells texts sts') : sts = sts' := by
  refine List.right_unique_forall₂' (fun line st st' hl hl' => ?_) h h'
  exact Spells.unique hl hl'

theorem spells_of_zipIdx {texts : List String} {ls : List Line} {file : String} {start : Nat}
    (hl : ∀ t ∈ texts, ∀ c ∈ t.toList, Text.isLineBreak c = false)
    (h : ((texts.map String.toList).zipIdx start).map
      (fun (raw, i) => readLine file (i + 1) (String.ofList raw)) = ls.map .ok) :
    List.Forall₂ Spells texts (ls.map Line.statement) := by
  induction texts generalizing ls start with
  | nil =>
    obtain rfl : ls = [] := List.map_eq_nil_iff.1 h.symm
    exact .nil
  | cons t texts ih =>
    cases ls with
    | nil => cases h
    | cons l ls =>
      obtain ⟨hfirst, hrest⟩ := List.forall_mem_cons.1 hl
      obtain ⟨hread, hmore⟩ := List.cons.inj h
      dsimp only at hread
      rw [String.ofList_toList] at hread
      exact .cons (spells_of_readLine hfirst hread) (ih hrest hmore)

/-- Lines that are written one below the other and can all be read spell what is read. -/
theorem spells_of_readLines {texts : List String} {ls : List Line} {file : String}
    (hne : texts ≠ []) (hl : ∀ t ∈ texts, ∀ c ∈ t.toList, Text.isLineBreak c = false)
    (h : readLines file ("\n".intercalate texts ++ "\n") = ls.map .ok) :
    List.Forall₂ Spells texts (ls.map Line.statement) := by
  have hlines : Text.lines ("\n".intercalate texts ++ "\n").toList = texts.map String.toList := by
    rw [String.toList_append, String.toList_intercalate]
    refine Text.lines_intercalate (by simpa using hne) fun t ht => ?_
    obtain ⟨text, htext, rfl⟩ := List.mem_map.1 ht
    exact hl text htext
  unfold readLines at h
  rw [hlines] at h
  exact spells_of_zipIdx hl h

/-! ## Numerals -/

theorem not_mem_of_isNumeral {v : List Char} (h : Text.isNumeral v = true) : '=' ∉ v := by
  have hdigits : ∀ s : List Char, Text.isDigits s = true → '=' ∉ s := by
    intro s hs hmem
    cases List.all_eq_true.1 (Bool.and_eq_true_iff.1 hs).2 _ hmem
  unfold Text.isNumeral Text.splitSign at h
  split at h
  · exact fun hmem => (List.mem_cons.1 hmem).elim nofun (hdigits _ h)
  · exact fun hmem => (List.mem_cons.1 hmem).elim nofun (hdigits _ h)
  · exact hdigits v h

/-- Only blanks are trimmed away. -/
theorem mem_trimLeft_iff {c : Char} (hc : Text.isBlank c = false) {s : List Char} :
    c ∈ Text.trimLeft s ↔ c ∈ s := by
  have hs : s.takeWhile Text.isBlank ++ Text.trimLeft s = s := List.takeWhile_append_dropWhile
  constructor
  · exact fun h => hs ▸ List.mem_append_right _ h
  · intro h
    rcases List.mem_append.1 (hs.symm ▸ h : c ∈ s.takeWhile Text.isBlank ++ _) with h | h
    · rw [List.mem_takeWhile_imp h] at hc
      cases hc
    · exact h

/-! ## What a declaration is cut from -/

/-- The text behind the name of a declaration: nothing, blanks and a numeral, or an equals sign and
    a numeral with blanks around the sign. -/
def Declaration.Behind (rest : List Char) : Declaration → Prop
  | assigned _ v => ∃ value, Text.trimLeft rest = '=' :: value ∧ Text.trimLeft value = v ∧
      Text.isNumeral v = true
  | paired _ v => Text.trimLeft rest = v ∧ Text.isNumeral v = true
  | bare _ => rest = []

theorem behind_of_declaration? {s : List Char} {d : Declaration} (h : declaration? s = some d) :
    isName d.name = true ∧ ∃ rest, s = d.name ++ rest ∧ d.Behind rest := by
  have hs : (splitName s).1 ++ (splitName s).2 = s := List.takeWhile_append_dropWhile
  unfold declaration? at h
  dsimp only at h
  split at h
  · cases h
  · rename_i hname
    have hname : isName (splitName s).1 = true := by simpa using hname
    split at h
    · split at h
      · rename_i hempty
        obtain rfl := Option.some.inj h
        exact ⟨hname, _, hs.symm, List.isEmpty_iff.1 hempty⟩
      · cases h
    · rename_i value hvalue
      split at h
      · rename_i hnum
        obtain rfl := Option.some.inj h
        exact ⟨hname, _, hs.symm, value, hvalue, rfl, hnum⟩
      · cases h
    · split at h
      · rename_i hnum
        obtain rfl := Option.some.inj h
        exact ⟨hname, _, hs.symm, rfl, (Bool.and_eq_true_iff.1 hnum).2⟩
      · cases h

/-- Where there is only one equals sign, the same stands in front of it but for blanks. -/
theorem front_of_equals {x gap value a b : List Char} (hx : ∀ c ∈ x, Text.isBlank c = false)
    (hgap : ∀ c ∈ gap, Text.isBlank c = true) (ha : Text.Trimmed a) (hno : '=' ∉ x)
    (hvalue : '=' ∉ value) (h : x ++ (gap ++ '=' :: value) = a ++ ' ' :: '=' :: b) : x = a := by
  have hboth : (x ++ gap) ++ '=' :: value = (a ++ [' ']) ++ '=' :: b := by
    rw [List.append_assoc, List.append_assoc]
    exact h
  have hfirst : '=' ∉ x ++ gap := by
    rw [List.mem_append, not_or]
    exact ⟨hno, fun hc => absurd (hgap _ hc) (by decide)⟩
  obtain ⟨hfront, -⟩ := (List.append_cons_inj_of_notMem hfirst hvalue).1 hboth
  have htrim := congrArg Text.trim hfront
  have hx' := Text.trim_append_blanks (a := []) x nofun hgap
  have ha' := Text.trim_append_blanks (a := []) a nofun (b := [' ']) (by decide)
  rw [List.nil_append] at hx' ha'
  rw [hx', ha', Text.trim_of_trimmed ha,
    Text.trim_of_trimmed (Text.trimmed_of_not_blank hx)] at htrim
  exact htrim

/-- In a declaration the name is what stands before an equals sign. -/
theorem name_of_declaration? {a b : List Char} (ha : Text.Trimmed a) {d : Declaration}
    (h : declaration? (a ++ ' ' :: '=' :: b) = some d) : d.name = a := by
  obtain ⟨hname, rest, hs, hbehind⟩ := behind_of_declaration? h
  obtain ⟨-, hrest, hblank⟩ := of_isName hname
  have hno : '=' ∉ d.name := fun hmem => by cases List.all_eq_true.1 hrest _ hmem
  have hmem : '=' ∈ rest := by
    have hall : '=' ∈ d.name ++ rest := hs ▸ by simp
    exact (List.mem_append.1 hall).resolve_left hno
  have hsign : Text.isBlank '=' = false := by decide
  rw [← mem_trimLeft_iff hsign] at hmem
  cases d with
  | bare x =>
    rw [show rest = [] from hbehind] at hmem
    cases hmem
  | paired x v =>
    obtain ⟨hv, hnum⟩ := hbehind
    exact absurd (hv ▸ hmem) (not_mem_of_isNumeral hnum)
  | assigned x v =>
    obtain ⟨value, hvalue, rfl, hnum⟩ := hbehind
    have hone : '=' ∉ value := by
      rw [← mem_trimLeft_iff hsign]
      exact not_mem_of_isNumeral hnum
    have hcut : rest.takeWhile Text.isBlank ++ '=' :: value = rest := by
      rw [← hvalue]
      exact List.takeWhile_append_dropWhile
    exact front_of_equals hblank (fun _ => List.mem_takeWhile_imp) ha hno hone (hcut ▸ hs.symm)

/-! ## Any text for a name -/

theorem beforeComment_of_no_comment {s : List Char} (h : ¬ ['/', '/'] <:+: s) :
    beforeComment s = s := by
  induction s with
  | nil => rfl
  | cons c s ih =>
    rw [List.infix_cons_iff, not_or] at h
    rw [beforeComment, ih h.2]
    rintro r rfl rfl
    exact h.1 ⟨r, rfl⟩

/-- No comment begins in a text and what is put behind it, if there is no slash in that. -/
theorem no_comment_append {a t : List Char} (ha : ¬ ['/', '/'] <:+: a) (ht : '/' ∉ t) :
    ¬ ['/', '/'] <:+: a ++ t := by
  induction a with
  | nil => exact fun h => ht (h.subset List.mem_cons_self)
  | cons c a ih =>
    rw [List.infix_cons_iff, not_or] at ha
    rw [List.cons_append, List.infix_cons_iff, not_or]
    refine ⟨fun h => ?_, ih ha.2⟩
    obtain ⟨rfl, hslash⟩ := List.cons_prefix_cons.1 h
    cases a with
    | nil => exact ht (hslash.subset List.mem_cons_self)
    | cons d a =>
      obtain ⟨rfl, -⟩ := List.cons_prefix_cons.1 hslash
      exact ha.1 ⟨a, rfl⟩

/-- A line that is read as a declaration has the form of one. -/
theorem declaration?_of_statement {s : List Char} {x : String} {v : Int}
    (h : statement s = .ok (some (.variable x v))) :
    ∃ d, declaration? s = some d ∧ x = String.ofList d.name := by
  unfold statement at h
  split at h
  · dsimp only at h
    split at h <;> cases h
  · split at h
    · rename_i d hd
      refine ⟨d, (Option.filter_eq_some_iff.1 hd).1, ?_⟩
      rw [statementOfDeclaration_eq] at h
      cases hv : d.value with
      | error e => rw [hv] at h; cases h
      | ok n =>
        rw [hv] at h
        cases h
        rfl
    · unfold statementOfWords at h
      split at h <;> cases h

theorem toList_declaration (name : String) (n : Int) :
    s!"{name} = {n}".toList = name.toList ++ [' ', '=', ' '] ++ Text.padded 0 n := by
  rw [← Text.toList_toString]
  show (name ++ " = " ++ toString n).toList = _
  simp

theorem trimmed_declaration {name : String} (hne : name.toList ≠ [])
    (ht : Text.Trimmed name.toList) (n : Int) : Text.Trimmed s!"{name} = {n}".toList := by
  rw [toList_declaration]
  constructor
  · intro c hc
    refine ht.1 c ?_
    rw [List.append_assoc, List.head?_append_of_ne_nil _ hne] at hc
    exact hc
  · intro c hc
    obtain ⟨d, hd, hblank, -⟩ := @getLast?_named name.toList [' ', '=', ' '] n
    rw [hd] at hc
    obtain rfl := Option.some.inj hc
    exact hblank

/-- A text that stands where the name of a declaration should is its name, if the line is read as a
    declaration and no comment begins in the text. -/
theorem isName_of_spells {name x : String} {n v : Int} (hne : name.toList ≠ [])
    (ht : Text.Trimmed name.toList) (hc : ¬ ['/', '/'] <:+: name.toList)
    (h : Spells s!"{name} = {n}" (.variable x v)) : isName name.toList = true ∧ x = name := by
  have htrim := Text.trim_of_trimmed (trimmed_declaration hne ht n)
  have hslash : '/' ∉ [' ', '=', ' '] ++ Text.padded 0 n := by
    intro hmem
    rcases List.mem_append.1 hmem with hmem | hmem
    · exact absurd hmem (by decide)
    · rcases Text.minus_or_digit_of_mem_padded hmem with h | h <;> cases h
  have hbefore : beforeComment s!"{name} = {n}".toList = s!"{name} = {n}".toList := by
    refine beforeComment_of_no_comment ?_
    rw [toList_declaration, List.append_assoc]
    exact no_comment_append hc hslash
  obtain ⟨l, hl, hst⟩ := h.read "" 1
  have hs := statement_of_readLine hl
  rw [hst] at hs
  obtain ⟨-, hs⟩ := (hs.resolve_left nofun).resolve_left nofun
  unfold stripComment at hs
  rw [htrim, hbefore, htrim, toList_declaration, List.append_assoc] at hs
  obtain ⟨d, hd, rfl⟩ := declaration?_of_statement hs
  have hname := name_of_declaration? ht hd
  rw [hname, String.ofList_toList]
  exact ⟨hname ▸ (behind_of_declaration? hd).1, rfl⟩

end DecimalMachine.Source
