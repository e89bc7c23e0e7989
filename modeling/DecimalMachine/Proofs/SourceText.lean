import DecimalMachine.Disassembly
import DecimalMachine.Proofs.LineReading
/-
  Writing source lines: a declaration, an instruction or a comment that is written out is read as
  just that statement (`Spells`), whatever the file and the number of the line are. So the lines of a
  text say what they were written for (`readLines_of_spells`). An instruction with an operand has the
  form of a declaration; it is none because its name is a mnemonic.
-/
namespace DecimalMachine

theorem Opcode.isName_of_mem {op : Opcode} {x : String} (h : x ∈ op.mnemonics) :
    Source.isName x.toList = true := by
  revert x
  cases op <;> decide +kernel

theorem Opcode.isName_mnemonic (op : Opcode) : Source.isName op.mnemonic.toList = true :=
  isName_of_mem (List.mem_cons_self : op.mnemonic ∈ op.mnemonics)

/-- Every spelling of an operation stands for it. -/
theorem Opcode.ofMnemonic?_of_mem {op : Opcode} {x : String} (h : x ∈ op.mnemonics) :
    ofMnemonic? x = some op := by
  revert x
  cases op <;> decide +kernel

theorem Opcode.ofMnemonic?_mnemonic (op : Opcode) : ofMnemonic? op.mnemonic = some op :=
  ofMnemonic?_of_mem List.mem_cons_self

namespace Source

/-- The text is one line, and it is read as a statement wherever it stands. -/
structure Spells (line : String) (st : Statement) : Prop where
  one_line : ∀ c ∈ line.toList, Text.isLineBreak c = false
  read : ∀ file number, ∃ l, readLine file number line = .ok l ∧ l.statement = st

theorem beforeComment_of_not_mem {s : List Char} (h : '/' ∉ s) : beforeComment s = s := by
  induction s with
  | nil => rfl
  | cons c r ih =>
    rw [List.mem_cons, not_or] at h
    rw [beforeComment, ih h.2]
    rintro _ rfl -
    exact absurd rfl h.1

/-- A text without a slash is read as what it says. -/
theorem spells_of_statement {line : String} {st : Statement} (hne : line.toList ≠ [])
    (ht : Text.Trimmed line.toList) (hslash : '/' ∉ line.toList)
    (hl : ∀ c ∈ line.toList, Text.isLineBreak c = false)
    (hs : statement line.toList = .ok (some st)) : Spells line st := by
  have htrim := Text.trim_of_trimmed ht
  have hstrip : stripComment line.toList = line.toList := by
    unfold stripComment
    rw [beforeComment_of_not_mem hslash, htrim]
  have hempty := List.isEmpty_eq_false_iff.2 hne
  refine ⟨hl, fun file number => ?_⟩
  unfold readLine
  dsimp only
  rw [htrim, hstrip, hempty, hs]
  exact ⟨_, rfl, rfl⟩

/-! ## A name and a number -/

/-- A name ends where a character follows that goes on no name. -/
theorem splitName_of_apart {x t : List Char} (hx : isName x = true)
    (ht : ∀ c ∈ t.head?, isNameRest c = false) : splitName (x ++ t) = (x, t) := by
  have hall : ∀ c ∈ x, isNameRest c = true := List.all_eq_true.1 (of_isName hx).2.1
  unfold splitName
  rw [List.takeWhile_append_of_pos hall, List.dropWhile_append_of_pos hall]
  cases t with
  | nil => rw [List.takeWhile_nil, List.append_nil, List.dropWhile_nil]
  | cons c t =>
    have hc : ¬ isNameRest c = true := Bool.eq_false_iff.1 (ht c rfl)
    rw [List.takeWhile_cons_of_neg hc, List.dropWhile_cons_of_neg hc, List.append_nil]

theorem not_isNameRest_of_blank {c : Char} (h : Text.isBlank c = true) : isNameRest c = false := by
  refine Bool.eq_false_iff.2 fun hc => ?_
  rw [not_blank_of_isNameRest hc] at h
  cases h

/-- A name ends at a blank. -/
theorem splitName_append {x t : List Char} (hx : isName x = true)
    (ht : ∀ c ∈ t.head?, Text.isBlank c = true) : splitName (x ++ t) = (x, t) :=
  splitName_of_apart hx fun c hc => not_isNameRest_of_blank (ht c hc)

section

variable {x sep : List Char} {n : Int}

theorem mem_named (hx : isName x = true) (hsep : ∀ c ∈ sep, c = ' ' ∨ c = '=') {c : Char}
    (hc : c ∈ x ++ sep ++ Text.padded 0 n) : isNameRest c = true ∨ c ∈ [' ', '=', '-'] := by
  rcases List.mem_append.1 hc with hc | hc
  · rcases List.mem_append.1 hc with hc | hc
    · exact .inl (List.all_eq_true.1 (of_isName hx).2.1 c hc)
    · rcases hsep c hc with rfl | rfl <;> exact .inr (by decide)
  · rcases Text.minus_or_digit_of_mem_padded hc with rfl | hc
    · exact .inr (by decide)
    · exact .inl (by simp [isNameRest, Char.isAlphanum, hc])

theorem getLast?_named : ∃ c, (x ++ sep ++ Text.padded 0 n).getLast? = some c ∧
    Text.isBlank c = false ∧ c ≠ ':' := by
  have hne := Text.padded_ne_nil 0 n
  refine ⟨_, (List.getLast?_append_of_ne_nil _ hne).trans (List.getLast?_eq_some_getLast hne), ?_⟩
  have hmem := List.getLast_mem hne
  refine ⟨Text.not_blank_of_mem_padded hmem, fun h => ?_⟩
  rw [h] at hmem
  rcases Text.minus_or_digit_of_mem_padded hmem with h | h <;> cases h

theorem trimmed_named (hx : isName x = true) :
    Text.Trimmed (x ++ sep ++ Text.padded 0 n) := by
  obtain ⟨hne, -, hblank⟩ := of_isName hx
  constructor
  · intro c hc
    obtain ⟨d, r, rfl⟩ := List.exists_cons_of_ne_nil hne
    obtain rfl := Option.some.inj hc
    exact hblank _ List.mem_cons_self
  · intro c hc
    obtain ⟨d, hd, hb, -⟩ := @getLast?_named x sep n
    rw [hd] at hc
    obtain rfl := Option.some.inj hc
    exact hb

theorem spells_named (hx : isName x = true) (hsep : ∀ c ∈ sep, c = ' ' ∨ c = '=')
    {line : String} {st : Statement} (hline : line.toList = x ++ sep ++ Text.padded 0 n)
    (hs : statement (x ++ sep ++ Text.padded 0 n) = .ok (some st)) : Spells line st := by
  have hall : ∀ c ∈ line.toList, c ≠ '/' ∧ Text.isLineBreak c = false := by
    intro c hc
    rcases mem_named hx hsep (hline ▸ hc) with h | h
    · refine ⟨?_, Text.not_lineBreak_of_not_blank (not_blank_of_isNameRest h)⟩
      rintro rfl
      cases h
    · have hfew : ∀ c ∈ [' ', '=', '-'], c ≠ '/' ∧ Text.isLineBreak c = false := by decide
      exact hfew c h
  have hne : line.toList ≠ [] := by
    rw [hline]
    simp [Text.padded_ne_nil]
  exact spells_of_statement hne (hline ▸ trimmed_named hx) (fun h => (hall _ h).1 rfl)
    (fun c hc => (hall c hc).2) (hline ▸ hs)

/-! ## Declarations -/

theorem trimLeft_padded (width : Nat) (n : Int) :
    Text.trimLeft (Text.padded width n) = Text.padded width n :=
  Text.trimLeft_of_head fun _ hc => Text.not_blank_of_mem_padded (List.mem_of_mem_head? hc)

theorem declaration?_assigned (hx : isName x = true) :
    declaration? (x ++ [' ', '=', ' '] ++ Text.padded 0 n) =
      some (.assigned x (Text.padded 0 n)) := by
  have hvalue : Text.trimLeft (' ' :: Text.padded 0 n) = Text.padded 0 n :=
    (Text.trimLeft_append_blank (a := [' ']) _ (by decide)).trans (trimLeft_padded 0 n)
  have hsplit : splitName (x ++ [' ', '=', ' '] ++ Text.padded 0 n) =
      (x, ' ' :: '=' :: ' ' :: Text.padded 0 n) := by
    rw [List.append_assoc]
    exact splitName_append hx fun _ hc => Option.some.inj hc ▸ rfl
  have htrim : Text.trimLeft (' ' :: '=' :: ' ' :: Text.padded 0 n) =
      '=' :: ' ' :: Text.padded 0 n := rfl
  unfold declaration?
  rw [hsplit]
  dsimp only
  rw [hx, htrim, Bool.not_true, if_neg Bool.false_ne_true]
  show (if Text.isNumeral (Text.trimLeft (' ' :: Text.padded 0 n)) then _ else _) = _
  rw [hvalue, if_pos (Text.isNumeral_padded 0 n)]

end

/-- A declaration with an equals sign is read as it is written. -/
theorem spells_declaration {name : String} (hx : isName name.toList = true) {n : Int}
    (hn : Word.inRange n = true) : Spells s!"{name} = {n}" (.variable name n) := by
  have hline : s!"{name} = {n}".toList = name.toList ++ [' ', '=', ' '] ++ Text.padded 0 n := by
    rw [← Text.toList_toString]
    show (name ++ " = " ++ toString n).toList = _
    simp
  refine spells_named hx (by decide) hline ?_
  obtain ⟨c, hc, -, hne⟩ := @getLast?_named name.toList [' ', '=', ' '] n
  have hlast : (name.toList ++ [' ', '=', ' '] ++ Text.padded 0 n).getLast? ≠ some ':' := by
    rw [hc]
    exact fun h => hne (Option.some.inj h)
  unfold statement variableOf?
  rw [if_neg hlast, declaration?_assigned hx]
  show (statementOfDeclaration (.assigned name.toList (Text.padded 0 n))).map some = _
  unfold statementOfDeclaration
  dsimp only
  rw [Word.intOfNumeral_padded_of_inRange hn (by decide), String.ofList_toList]
  rfl

/-! ## Instructions -/

theorem declaration?_paired {x : List Char} {n : Int} (hx : isName x = true) :
    declaration? (x ++ [' '] ++ Text.padded 0 n) = some (.paired x (Text.padded 0 n)) := by
  have hsplit : splitName (x ++ [' '] ++ Text.padded 0 n) = (x, ' ' :: Text.padded 0 n) := by
    rw [List.append_assoc]
    exact splitName_append hx fun _ hc => Option.some.inj hc ▸ rfl
  have htrim : Text.trimLeft (' ' :: Text.padded 0 n) = Text.padded 0 n :=
    (Text.trimLeft_append_blank (a := [' ']) _ (by decide)).trans (trimLeft_padded 0 n)
  have hform : (Text.padded 0 n).length < (' ' :: Text.padded 0 n).length ∧
      Text.isNumeral (Text.padded 0 n) = true := ⟨Nat.lt_succ_self _, Text.isNumeral_padded 0 n⟩
  -- The number is not taken for the value of an assignment.
  have hmem : ∀ c ∈ Text.padded 0 n, c ≠ '=' := by
    rintro c hc rfl
    rcases Text.minus_or_digit_of_mem_padded hc with h | h <;> cases h
  unfold declaration?
  rw [hsplit]
  dsimp only
  rw [hx, htrim, Bool.not_true, if_neg Bool.false_ne_true]
  split
  · rename_i hnil
    exact absurd hnil (Text.padded_ne_nil 0 n)
  · rename_i value heq
    exact absurd rfl (hmem '=' (heq ▸ List.mem_cons_self))
  · rw [if_pos (by simpa using hform.2)]

theorem variableOf?_mnemonic (op : Opcode) (n : Int) :
    variableOf? (op.mnemonic.toList ++ [' '] ++ Text.padded 0 n) = none := by
  have hname : Opcode.isMnemonic op.mnemonic = true := by
    unfold Opcode.isMnemonic
    rw [op.ofMnemonic?_mnemonic]
    rfl
  have hform : (Declaration.paired op.mnemonic.toList (Text.padded 0 n)).isVariable = false := by
    show (!Opcode.isMnemonic (String.ofList op.mnemonic.toList)) = false
    rw [String.ofList_toList, hname, Bool.not_true]
  unfold variableOf?
  rw [declaration?_paired op.isName_mnemonic, Option.filter_some, hform, if_neg Bool.false_ne_true]

/-- An operation with a number behind it is read as an instruction. -/
theorem spells_instruction (op : Opcode) (n : Int) :
    Spells s!"{op.mnemonic} {n}" (.instruction op.mnemonic (some (toString n)) []) := by
  have hline : s!"{op.mnemonic} {n}".toList =
      op.mnemonic.toList ++ [' '] ++ Text.padded 0 n := by
    rw [← Text.toList_toString]
    show (op.mnemonic ++ " " ++ toString n).toList = _
    simp
  obtain ⟨hne, -, hblank⟩ := of_isName op.isName_mnemonic
  refine spells_named op.isName_mnemonic (by decide) hline ?_
  obtain ⟨c, hc, -, hcolon⟩ := @getLast?_named op.mnemonic.toList [' '] n
  have hlast : (op.mnemonic.toList ++ [' '] ++ Text.padded 0 n).getLast? ≠ some ':' := by
    rw [hc]
    exact fun h => hcolon (Option.some.inj h)
  have hwords : Text.words (op.mnemonic.toList ++ [' '] ++ Text.padded 0 n) =
      [op.mnemonic.toList, Text.padded 0 n] := by
    rw [List.append_assoc, List.singleton_append, Text.words_append_blank (by decide),
      Text.words_of_not_blank hne hblank,
      Text.words_of_not_blank (Text.padded_ne_nil 0 n) fun _ => Text.not_blank_of_mem_padded]
    rfl
  have hoperand : String.ofList (Text.padded 0 n) = toString n := by
    rw [← Text.toList_toString, String.ofList_toList]
  unfold statement
  rw [if_neg hlast, variableOf?_mnemonic, hwords]
  show Except.ok (some (Statement.instruction (String.ofList op.mnemonic.toList)
    (some (String.ofList (Text.padded 0 n))) [])) = _
  rw [hoperand, String.ofList_toList]

/-- An operation alone is read as an instruction. -/
theorem spells_operation (op : Opcode) : Spells op.mnemonic (.instruction op.mnemonic none []) := by
  obtain ⟨hne, hall, hblank⟩ := of_isName op.isName_mnemonic
  have hslash : '/' ∉ op.mnemonic.toList := fun h => by
    cases List.all_eq_true.1 hall _ h
  refine spells_of_statement hne (Text.trimmed_of_not_blank hblank) hslash
    (Text.oneLine_of_not_blank hblank) ?_
  cases op <;> decide +kernel

/-! ## Comments -/

/-- What begins with two slashes still does when it is trimmed. -/
theorem trim_slashes (r : List Char) : ∃ t, Text.trim ('/' :: '/' :: r) = '/' :: '/' :: t := by
  obtain ⟨a, b, hs, ha, hb⟩ := Text.exists_blanks ('/' :: '/' :: r)
  have hslash : ¬ Text.isBlank '/' = true := by decide
  cases a with
  | cons c a =>
    obtain ⟨rfl, -⟩ := List.cons.inj hs
    exact absurd (ha '/' List.mem_cons_self) hslash
  | nil =>
    rw [List.nil_append] at hs
    cases ht : Text.trim ('/' :: '/' :: r) with
    | nil =>
      rw [ht, List.nil_append] at hs
      exact absurd (hb '/' (hs ▸ List.mem_cons_self)) hslash
    | cons c t =>
      rw [ht] at hs
      obtain ⟨rfl, hrest⟩ := List.cons.inj hs
      cases t with
      | nil =>
        have hb' : '/' :: r = b := hrest
        exact absurd (hb '/' (hb' ▸ List.mem_cons_self)) hslash
      | cons d t =>
        obtain ⟨rfl, -⟩ := List.cons.inj hrest
        exact ⟨t, rfl⟩

theorem spells_comment {line : String} {r : List Char} (h : line.toList = '/' :: '/' :: r)
    (hl : ∀ c ∈ r, Text.isLineBreak c = false) : Spells line .comment := by
  obtain ⟨t, ht⟩ := trim_slashes r
  refine ⟨?_, fun file number => ?_⟩
  · rw [h]
    simpa using ⟨by decide, hl⟩
  · unfold readLine
    dsimp only
    rw [h, ht]
    exact ⟨_, rfl, rfl⟩

/-- A word that no instruction has, written as a comment. -/
theorem spells_unexpressed (address : Int) (n : Int) :
    Spells s!"// {twoDigits address}: {Word.render n}" .comment := by
  have hline : s!"// {twoDigits address}: {Word.render n}".toList =
      '/' :: '/' :: ' ' :: (Text.zeroPadInt 2 address ++ ':' :: ' ' :: Text.padded Word.digits n) := by
    show ("// " ++ twoDigits address ++ ": " ++ Word.render n).toList = _
    unfold twoDigits
    simp [Word.toList_render]
  have hsep : Text.OneLine [':', ' '] := by decide
  have hvalue : Text.OneLine ([':', ' '] ++ Text.padded Word.digits n) :=
    hsep.append (Text.oneLine_padded _ n)
  exact spells_comment hline
    (List.forall_mem_cons.2 ⟨by decide, (Text.oneLine_zeroPadInt 2 address).append hvalue⟩)

/-! ## Texts -/

theorem read_zipIdx {lines : List String} {sts : List Statement}
    (h : List.Forall₂ Spells lines sts) (file : String) (start : Nat) :
    ∃ ls : List Line, ((lines.map String.toList).zipIdx start).map
        (fun (raw, i) => readLine file (i + 1) (String.ofList raw)) = ls.map .ok ∧
      ls.map Line.statement = sts := by
  induction h generalizing start with
  | nil => exact ⟨[], rfl, rfl⟩
  | @cons line st lines sts hline _ ih =>
    obtain ⟨ls, hls, hsts⟩ := ih (start + 1)
    obtain ⟨l, hl, hst⟩ := hline.read file (start + 1)
    refine ⟨l :: ls, ?_, by rw [List.map_cons, hst, hsts]⟩
    rw [List.map_cons, List.zipIdx_cons, List.map_cons, hls, List.map_cons]
    dsimp only
    rw [String.ofList_toList, hl]

theorem one_line_of_spells {lines : List String} {sts : List Statement}
    (h : List.Forall₂ Spells lines sts) :
    ∀ l ∈ lines.map String.toList, ∀ c ∈ l, Text.isLineBreak c = false := by
  induction h with
  | nil => exact nofun
  | cons hline _ ih =>
    rw [List.map_cons]
    exact List.forall_mem_cons.2 ⟨hline.one_line, ih⟩

/-- Lines that are written one below the other are read as their statements. A text of no lines
    has one that is blank. -/
theorem readLines_of_spells {lines : List String} {sts : List Statement}
    (h : List.Forall₂ Spells lines sts) (file : String) :
    ∃ ls : List Line, readLines file ("\n".intercalate lines ++ "\n") = ls.map .ok ∧
      (ls.map Line.statement = sts ∨ sts = [] ∧ ls.map Line.statement = [.blank]) := by
  cases h with
  | nil => exact ⟨[⟨.blank, "", ⟨file, 1, 1⟩, ""⟩], rfl, .inr ⟨rfl, rfl⟩⟩
  | @cons line st lines sts hline hrest =>
    have h : List.Forall₂ Spells (line :: lines) (st :: sts) := .cons hline hrest
    have hlines : Text.lines ("\n".intercalate (line :: lines) ++ "\n").toList =
        (line :: lines).map String.toList := by
      rw [String.toList_append, String.toList_intercalate]
      exact Text.lines_intercalate (by simp) (one_line_of_spells h)
    obtain ⟨ls, hls, hsts⟩ := read_zipIdx h file 0
    refine ⟨ls, ?_, .inl hsts⟩
    unfold readLines
    rw [hlines]
    exact hls

end Source

end DecimalMachine
