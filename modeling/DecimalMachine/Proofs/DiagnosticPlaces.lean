import DecimalMachine.Proofs.SourceLines
import DecimalMachine.Proofs.Verdict
/-
  The places of diagnostics. Every diagnostic that an assembly collects is drawn by a line of the source
  (`Draws`, `exists_draws`), and names that line and its first character that is no blank. Written
  out, it shows the line below its headline, and below the line a mark at this character
  (`Diagnostic.Points`): since a line holds no break, and no name or word in a message does, these are the
  second line of the text and the third.
-/
namespace DecimalMachine

namespace Text

/-! ## The first character of a line -/

/-- Behind the blanks in front of a line stands its first character that is none. -/
theorem exists_first {s : List Char} (h : trim s ≠ []) :
    (∃ c, s[indent s]? = some c ∧ isBlank c = false) ∧ ∀ b ∈ s.take (indent s), isBlank b = true := by
  unfold indent
  induction s with
  | nil => exact absurd rfl h
  | cons c s ih =>
    cases hc : isBlank c with
    | true =>
      have htrim : trim (c :: s) = trim s := by
        unfold trim trimLeft
        rw [List.dropWhile_cons, hc, if_pos rfl]
      obtain ⟨hfirst, hblanks⟩ := ih (htrim ▸ h)
      rw [List.takeWhile_cons_of_pos hc, List.length_cons, List.getElem?_cons_succ,
        List.take_succ_cons]
      exact ⟨hfirst, List.forall_mem_cons.2 ⟨hc, hblanks⟩⟩
    | false =>
      rw [List.takeWhile_cons_of_neg (by simp [hc])]
      exact ⟨⟨c, rfl, hc⟩, nofun⟩

/-- What is trimmed away at the end are blanks, so every other character keeps its place. -/
theorem getElem?_trimRight {s : List Char} {k : Nat} {c : Char} (hk : s[k]? = some c)
    (hc : isBlank c = false) : (trimRight s)[k]? = some c := by
  obtain ⟨b, hs, hb⟩ := exists_trimRight s
  by_cases hlt : k < (trimRight s).length
  · rwa [hs, List.getElem?_append_left hlt] at hk
  · rw [hs, List.getElem?_append_right (Nat.le_of_not_lt hlt)] at hk
    rw [hb c (List.mem_of_getElem? hk)] at hc
    cases hc

end Text

open Text (OneLine)

/-! ## Texts of diagnostics -/

namespace Diagnostic

/-- The diagnostic names line `n` of a source and the character `k` of that line, which is the first
    one that is no blank; and it shows them. -/
structure Points (d : Diagnostic) (file source : String) (n k : Nat) (raw : List Char) : Prop where
  line : (Text.lines source.toList)[n]? = some raw
  location : d.location = some ⟨file, n + 1, k + 1⟩
  blanks : ∀ b ∈ raw.take k, Text.isBlank b = true
  mark : ∃ c, raw[k]? = some c ∧ Text.isBlank c = false ∧
    (Text.blanks 4 ++ Text.trimRight raw)[4 + k]? = some c
  text : Text.lines d.render.toList = Text.lines (d.headline ++ "\n").toList ++
    (Text.blanks 4 ++ Text.trimRight raw) :: (Text.blanks (4 + k) ++ ['^']) ::
      Text.lines ("\n".intercalate d.hintLine).toList
  headline : OneLine file.toList → Text.lines (d.headline ++ "\n").toList = [d.headline.toList]

/-- Below the headline stands the line, then the mark, then the hint. -/
theorem lines_render {c : Complaint} {l : Location} {shown : String} (hcolumn : 0 < l.column)
    (hshown : OneLine shown.toList) :
    let d : Diagnostic := ⟨c, some l, some shown⟩
    Text.lines d.render.toList = Text.lines (d.headline ++ "\n").toList ++
      (Text.blanks 4 ++ shown.toList) :: (Text.blanks (indent l) ++ ['^']) ::
        Text.lines ("\n".intercalate d.hintLine).toList := by
  intro d
  have hline : OneLine (Text.blanks 4 ++ shown.toList) := (Text.oneLine_blanks 4).append hshown
  have hmark : OneLine (Text.blanks (indent l) ++ ['^']) :=
    (Text.oneLine_blanks _).append (by decide)
  have hlines : d.lines = d.headline :: s!"    {shown}" ::
      String.ofList (Text.blanks (indent l) ++ ['^']) :: d.hintLine := by
    unfold lines excerpt
    simp [d, hcolumn]
  have hexcerpt : s!"    {shown}".toList = Text.blanks 4 ++ shown.toList := by
    show ("    " ++ shown).toList = _
    simp [Text.blanks]
  have hrender : d.render.toList = ['\n'].intercalate (d.headline.toList ::
      (Text.blanks 4 ++ shown.toList) :: (Text.blanks (indent l) ++ ['^']) ::
        d.hintLine.map String.toList) := by
    unfold render
    rw [hlines, String.toList_intercalate, List.map_cons, List.map_cons, List.map_cons, hexcerpt,
      @String.toList_ofList (Text.blanks (indent l) ++ ['^'])]
    rfl
  have hne : Text.blanks (indent l) ++ ['^'] ≠ [] :=
    List.append_ne_nil_of_right_ne_nil _ (List.cons_ne_nil _ _)
  rw [hrender, List.intercalate_cons_cons, List.append_assoc, List.singleton_append,
    Text.lines_append_newline, @Text.lines_intercalate_cons (Text.blanks 4 ++ shown.toList)
      (List.cons_ne_nil _ _) hline, Text.lines_intercalate_cons hne hmark, String.toList_append,
    String.toList_intercalate]
  rfl

/-- A headline is one line if the name of the file and the message are. -/
theorem lines_headline {c : Complaint} {l : Location} {shown : Option String}
    (hfile : OneLine l.file.toList) (hmessage : OneLine c.message.toList) :
    let d : Diagnostic := ⟨c, some l, shown⟩
    Text.lines (d.headline ++ "\n").toList = [d.headline.toList] := by
  intro d
  have hline : OneLine d.headline.toList := by
    have htext : d.headline.toList = l.file.toList ++ ":".toList ++ (toString l.line).toList ++
        ":".toList ++ (toString l.column).toList ++ ": error: ".toList ++ c.message.toList := by
      show (l.file ++ ":" ++ toString l.line ++ ":" ++ toString l.column ++ ": error: " ++
        c.message).toList = _
      simp only [String.toList_append]
    have hcolon : OneLine ":".toList := by decide
    have hline := Text.oneLine_toString l.line
    have hcolumn := Text.oneLine_toString l.column
    rw [htext]
    exact (((((hfile.append hcolon).append hline).append hcolon).append hcolumn).append
      (by decide)).append hmessage
  rw [String.toList_append]
  exact Text.lines_cons_newline hline []

/-- A complaint about a line that is not blank points at it. -/
theorem points_of_line {file source : String} {n : Nat} {raw : List Char}
    (hraw : (Text.lines source.toList)[n]? = some raw) (hne : Text.trim raw ≠ []) {c : Complaint}
    (hmessage : OneLine c.message.toList) :
    Points ⟨c, some ⟨file, n + 1, Text.indent raw + 1⟩, some (Line.shown (String.ofList raw))⟩
      file source n (Text.indent raw) raw := by
  obtain ⟨⟨first, hfirst, hblank⟩, hblanks⟩ := Text.exists_first hne
  have hshown : (Line.shown (String.ofList raw)).toList = Text.trimRight raw := by
    unfold Line.shown
    rw [String.toList_ofList, String.toList_ofList]
  have hone : OneLine raw := Text.not_lineBreak_of_mem_lines (List.mem_of_getElem? hraw)
  have hindent : indent ⟨file, n + 1, Text.indent raw + 1⟩ = 4 + Text.indent raw := by
    unfold indent
    dsimp only
    omega
  have hmark : (Text.blanks 4 ++ Text.trimRight raw)[4 + Text.indent raw]? = some first := by
    rw [List.getElem?_append_right (Nat.le_add_right 4 _)]
    simpa [Text.blanks] using Text.getElem?_trimRight hfirst hblank
  have htext := @lines_render c ⟨file, n + 1, Text.indent raw + 1⟩ (Line.shown (String.ofList raw))
    (by dsimp only; omega) (hshown ▸ hone.trimRight)
  rw [hshown, hindent] at htext
  exact ⟨hraw, rfl, hblanks, ⟨first, hfirst, hblank, hmark⟩, htext,
    fun hfile => lines_headline hfile hmessage⟩

end Diagnostic

/-! ## Lines that draw diagnostics -/

namespace Assembly

open Source

/-- What line `n` of a source draws, of the lines `lines` that can be read: it is a label without a
    name, a declaration that is refused or an instruction that is refused. -/
inductive Draws (strict : Bool) (file : String) (lines : List Line) (n : Nat) (raw : List Char) :
    Complaint → Prop
  | nameless (h : isNameless raw = true) : Draws strict file lines n raw .namelessLabel
  | declaration {l : Line} {c : Complaint} (hl : readLine file (n + 1) (String.ofList raw) = .ok l)
      (hc : misdeclared? (lines.take n) l = some c) : Draws strict file lines n raw c
  | instruction {l : Line} {c : Complaint} (hl : readLine file (n + 1) (String.ofList raw) = .ok l)
      (hc : complaint? strict (fitting lines) l = some c) : Draws strict file lines n raw c

/-! ### Messages -/

theorem oneLine_between {a b x : String} (ha : OneLine a.toList) (hb : OneLine b.toList)
    (hx : OneLine x.toList) : OneLine (a ++ x ++ b).toList := by
  rw [String.toList_append, String.toList_append]
  exact (ha.append hx).append hb

theorem oneLine_initialValue {name : String} (h : OneLine name.toList) (value : Int) :
    OneLine (Complaint.initialValue name value).message.toList := by
  have hvalue : OneLine ("initial value " ++ toString value ++ " of '").toList :=
    oneLine_between (by decide) (by decide) (Text.oneLine_toString value)
  exact oneLine_between hvalue (by decide) h

theorem oneLine_wideWord (mnemonic : String) (operand word : Int) :
    OneLine (Complaint.wideWord mnemonic operand word).message.toList := by
  have hoperand : OneLine ("operand " ++ toString operand ++ " makes word ").toList :=
    oneLine_between (by decide) (by decide) (Text.oneLine_toString operand)
  exact oneLine_between hoperand (by decide) (Text.oneLine_toString word)

theorem oneLine_misdeclared {file : String} {number : Int} {raw : String} {l : Line}
    (hl : readLine file number raw = .ok l) {before : List Line} {c : Complaint}
    (hc : misdeclared? before l = some c) : OneLine c.message.toList := by
  unfold misdeclared? at hc
  split at hc
  · rename_i name value hd
    split at hc
    · cases hc
    · obtain rfl := Option.some.inj hc
      have hsays := says_of_readLine hl
      rw [Line.statement_of_declared? hd] at hsays
      simp only [reduceCtorEq, false_or] at hsays
      have hname := isName_of_says hsays
      exact oneLine_initialValue (Text.oneLine_of_not_blank (of_isName hname).2.2) value
  · cases hc

/-- The operation and the operand of an instruction are words of its line. -/
theorem oneLine_instruction {file : String} {number : Int} {raw : String} {l : Line}
    (hl : readLine file number raw = .ok l) (hraw : OneLine raw.toList) {mnemonic : String}
    {operand : Option String} {extra : List String}
    (hs : l.statement = .instruction mnemonic operand extra) :
    OneLine mnemonic.toList ∧ ∀ x ∈ operand, OneLine x.toList := by
  have hcode : l.isCode = true := by
    unfold Line.isCode
    rw [hs]
  obtain ⟨-, hwords⟩ := code_of_readLine hl hcode
  have hword : ∀ w ∈ Text.words (stripComment raw.toList), OneLine w := fun w hw c hc =>
    hraw c (((Text.infix_of_mem_words hw).trans (stripComment_isInfix _)).subset hc)
  rw [hs] at hwords
  cases hws : Text.words (stripComment raw.toList) with
  | nil =>
    rw [hws] at hwords
    obtain ⟨rfl, rfl, -⟩ := Statement.instruction.inj hwords
    exact ⟨nofun, nofun⟩
  | cons m r =>
    rw [hws] at hwords hword
    obtain ⟨hm, hr⟩ := List.forall_mem_cons.1 hword
    obtain ⟨rfl, rfl, -⟩ := Statement.instruction.inj hwords
    refine ⟨by rwa [String.toList_ofList], fun x hx => ?_⟩
    obtain ⟨w, hw, rfl⟩ := Option.map_eq_some_iff.1 hx
    rw [String.toList_ofList]
    exact hr w (List.mem_of_mem_head? hw)

theorem oneLine_operandComplaint {strict : Bool} {lines : List Line} {op : Opcode} {x : String}
    (hx : OneLine x.toList) {c : Complaint} (hc : operandComplaint? strict lines op x = some c) :
    OneLine c.message.toList := by
  unfold operandComplaint? at hc
  split at hc
  · cases hc
  · dsimp only at hc
    split at hc
    · obtain rfl := Option.some.inj hc
      exact oneLine_between (a := "undefined symbol '") (by decide) (by decide) hx
    · split at hc
      · obtain rfl := Option.some.inj hc
        exact oneLine_wideWord _ _ _
      · cases hc

theorem oneLine_complaint {file : String} {number : Int} {raw : String} {l : Line}
    (hl : readLine file number raw = .ok l) (hraw : OneLine raw.toList) {strict : Bool}
    {lines : List Line} {c : Complaint} (hc : complaint? strict lines l = some c) :
    OneLine c.message.toList := by
  unfold complaint? at hc
  split at hc
  · rename_i mnemonic operand extra hs
    obtain ⟨hmnemonic, hoperand⟩ := oneLine_instruction hl hraw hs
    split at hc
    · obtain rfl := Option.some.inj hc
      exact oneLine_between (a := "unknown instruction '") (by decide) (by decide) hmnemonic
    · rename_i op hop
      split at hc
      · cases hc
      · split at hc
        · obtain rfl := Option.some.inj hc
          cases op <;> decide
        · rename_i x
          exact oneLine_operandComplaint (hoperand x rfl) hc
  · cases hc

/-! ### Findings -/

theorem mem_errors_enter {r : Review} {f : Finding} {d : Diagnostic}
    (h : d ∈ (r.enter f).collector.errors) : d ∈ r.collector.errors ∨ f = .error d := by
  unfold Review.enter at h
  split at h
  · exact .inl h
  · cases f with
    | remark text => exact .inl h
    | warning text => exact .inl h
    | number e => exact .inl h
    | error d' =>
      rcases Array.mem_push.1 h with h | rfl
      · exact .inl h
      · exact .inr rfl

theorem mem_errors_foldl {fs : List Finding} {r : Review} {d : Diagnostic}
    (h : d ∈ (fs.foldl Review.enter r).collector.errors) :
    d ∈ r.collector.errors ∨ .error d ∈ fs := by
  induction fs generalizing r with
  | nil => exact .inl h
  | cons f fs ih =>
    rcases ih h with h | h
    · rcases mem_errors_enter h with h | rfl
      · exact .inl h
      · exact .inr List.mem_cons_self
    · exact .inr (List.mem_cons_of_mem f h)

/-- Diagnostics are collected from the findings. -/
theorem mem_findings_of_errors {fs : List Finding} {d : Diagnostic}
    (h : d ∈ (Review.ofFindings fs).collector.errors) : .error d ∈ fs :=
  (mem_errors_foldl h).resolve_left (Array.not_mem_empty d)

section

variable {lines : List Line} {t : Tables} {strict : Bool} {l : Line} {address : Nat}

/-- An error at an instruction line is what is wrong with the line. -/
theorem error_mem_encode (ht : t.Of lines) (hnames : t.names = names lines) {d : Diagnostic}
    (hd : .error d ∈ (encode t strict l address).findings) :
    ∃ c, complaint? strict lines l = some c ∧ d = l.diagnose c := by
  have hfail : .diagnostic d ∈ (encode t strict l address).findings.filterMap Finding.failure? :=
    List.mem_filterMap.2 ⟨_, hd, rfl⟩
  rcases failures_encode ht hnames with hline | ⟨-, -, -, -, e, -, -, hline⟩
  · rw [hline, Option.mem_toList] at hfail
    obtain ⟨c, hc, hdiagnosed⟩ := Option.map_eq_some_iff.1 hfail
    exact ⟨c, hc, (AssemblyError.diagnostic.inj hdiagnosed).symm⟩
  · rw [hline] at hfail
    cases List.mem_singleton.1 hfail

/-- The errors of both passes are what is wrong with declarations and instructions. -/
theorem error_mem_findings {d : Diagnostic} (hd : .error d ∈ findings strict lines) :
    ∃ n l c, lines[n]? = some l ∧ d = l.diagnose c ∧
      (misdeclared? (lines.take n) l = some c ∨ complaint? strict (fitting lines) l = some c) := by
  unfold findings at hd
  rcases List.mem_append.1 hd with hd | hd
  · have hfail : .diagnostic d ∈ (tabulate lines).2.filterMap Finding.failure? :=
      List.mem_filterMap.2 ⟨_, hd, rfl⟩
    rw [failures_tabulate] at hfail
    obtain ⟨d', hmem, heq⟩ := List.mem_map.1 hfail
    obtain rfl := AssemblyError.diagnostic.inj heq
    obtain ⟨⟨l, n⟩, hl, hdiagnosed⟩ := List.mem_filterMap.1 hmem
    obtain ⟨c, hc, rfl⟩ := Option.map_eq_some_iff.1 hdiagnosed
    exact ⟨n, l, c, List.mem_zipIdx_iff_getElem?.1 hl, rfl, .inl hc⟩
  · obtain ⟨e, he, hd⟩ := List.mem_flatMap.1 hd
    obtain ⟨⟨l, address⟩, hl, rfl⟩ := List.mem_map.1 he
    have hmem : l ∈ lines := (List.mem_filter.1 (List.fst_mem_of_mem_zipIdx hl)).1
    obtain ⟨n, hn⟩ := List.getElem?_of_mem hmem
    obtain ⟨c, hc, rfl⟩ := error_mem_encode (tabulate_fitting lines) (names_tabulate lines) hd
    exact ⟨n, l, c, hn, rfl, .inr hc⟩

end

/-! ### Lines that cannot be read -/

theorem error_mem_refusals {results : List (Except LineError Line)} {d : Diagnostic}
    (hd : .error d ∈ refusals results) : .error (.diagnostic d) ∈ results := by
  induction results with
  | nil => cases hd
  | cons r rs ih =>
    cases r with
    | ok l => exact List.mem_cons_of_mem _ (ih hd)
    | error e =>
      cases e with
      | diagnostic d' =>
        rcases List.mem_cons.1 hd with hd | hd
        · cases hd
          exact List.mem_cons_self
        · exact List.mem_cons_of_mem _ (ih hd)
      | number e =>
        rcases List.mem_cons.1 hd with hd | hd
        · cases hd
        · exact List.mem_cons_of_mem _ (ih hd)

/-- The diagnostic of a line that cannot be read is about a label without a name. -/
theorem of_readLine_diagnostic {file : String} {number : Int} {raw : List Char} {d : Diagnostic}
    (h : readLine file number (String.ofList raw) = .error (.diagnostic d)) :
    isNameless raw = true ∧ d = namelessDiagnostic file number raw := by
  unfold readLine at h
  rw [String.toList_ofList] at h
  dsimp only at h
  split at h
  · cases h
  · split at h
    · cases h
    · split at h
      · cases h
      · rename_i hnone
        have htrimmed : Text.Trimmed (stripComment (Text.trim raw)) := Text.trimmed_trim _
        obtain rfl := LineError.diagnostic.inj (Except.error.inj h)
        exact ⟨beq_of_eq ((statement_eq_none_iff htrimmed).1 hnone), rfl⟩
      · cases h

/-! ## Diagnostics that are collected -/

/-- What an assembly takes in before its verdict: what is wrong with the lines that cannot be read, or
    else what comes up at the lines. -/
def reviewed (strict : Bool) (file source : String) : Review :=
  let results := readLines file source
  let reading := Review.ofFindings (refusals results)
  if reading.error?.isSome then reading else Review.ofFindings (findings strict (accepted results))

/-- The error of an assembly is what its review amounts to. -/
theorem outcome_eq_error_iff (a : Assembler) (file source : String) (e : AssemblyError) :
    (a.assemble file source).2.outcome = .error e ↔
      (reviewed a.strict file source).error? = some e := by
  unfold reviewed
  dsimp only
  cases hr : (Review.ofFindings (refusals (readLines file source))).error? with
  | some e' =>
    have hread : readSource file source = .error e' := by
      unfold readSource
      dsimp only
      rw [hr]
    unfold Assembler.assemble
    rw [hread, Option.isSome_some, if_pos rfl, hr]
    simp
  | none =>
    have hread : readSource file source = .ok (accepted (readLines file source)) := by
      unfold readSource
      dsimp only
      rw [hr]
    rw [outcome_of_readSource hread, Option.isSome_none, if_neg Bool.false_ne_true]
    cases he : (Review.ofFindings (findings a.strict (accepted (readLines file source)))).error? with
    | some e' =>
      rw [outcome_of_error he]
      simp
    | none =>
      rw [outcome_of_no_error he]
      simp

/-- Nothing is wrong with a line of blanks. -/
theorem trim_ne_nil {file : String} {number : Int} {raw : String} {l : Line}
    (hl : readLine file number raw = .ok l) {strict : Bool} {before lines : List Line} {c : Complaint}
    (hc : misdeclared? before l = some c ∨ complaint? strict lines l = some c) :
    Text.trim raw.toList ≠ [] := fun hnil => by
  have hquiet : l.statement = .blank ∨ l.statement = .comment := by
    obtain ⟨-, -, hs | hs | ⟨-, hne, -⟩⟩ := of_readLine hl
    · exact .inl hs
    · exact .inr hs
    · rw [hnil] at hne
      exact absurd rfl hne
  unfold misdeclared? Line.declared? complaint? at hc
  rcases hquiet with hs | hs <;> simp [hs] at hc

theorem exists_draws_of_refusals {strict : Bool} {file source : String} {lines : List Line}
    {d : Diagnostic} (h : .error d ∈ refusals (readLines file source)) :
    ∃ n k raw, Draws strict file lines n raw d.complaint ∧ d.Points file source n k raw := by
  obtain ⟨⟨raw, n⟩, hraw, hread⟩ := List.mem_map.1 (error_mem_refusals h)
  have hline := List.mem_zipIdx_iff_getElem?.1 hraw
  obtain ⟨hnameless, rfl⟩ := of_readLine_diagnostic hread
  have hne : Text.trim raw ≠ [] := fun hnil => by
    unfold isNameless at hnameless
    rw [hnil] at hnameless
    cases hnameless
  exact ⟨n, _, raw, .nameless hnameless, Diagnostic.points_of_line hline hne (by decide)⟩

theorem exists_draws_of_findings {strict : Bool} {file source : String} {lines : List Line}
    (hread : readLines file source = lines.map .ok) {d : Diagnostic}
    (h : .error d ∈ findings strict lines) :
    ∃ n k raw, Draws strict file lines n raw d.complaint ∧ d.Points file source n k raw := by
  obtain ⟨n, l, c, hn, rfl, hc⟩ := error_mem_findings h
  obtain ⟨hline, hl⟩ := readLine_of_readLines hread hn
  have hmessage : OneLine c.message.toList := hc.elim (oneLine_misdeclared hl)
    (oneLine_complaint hl (one_line_raw hread (List.mem_of_getElem? hn)))
  have hpoints := @Diagnostic.points_of_line file source n _ hline (trim_ne_nil hl hc) c hmessage
  have hl' : readLine file (n + 1) (String.ofList l.raw.toList) = .ok l := by
    rwa [String.ofList_toList]
  refine ⟨n, Text.indent l.raw.toList, l.raw.toList,
    hc.elim (.declaration hl') (.instruction hl'), ?_⟩
  rw [String.ofList_toList, ← (of_readLine hl).1] at hpoints
  exact hpoints

/-- Every diagnostic that is collected is drawn by a line, and points at it. -/
theorem exists_draws {strict : Bool} {file source : String} {d : Diagnostic}
    (h : d ∈ (reviewed strict file source).collector.errors) :
    ∃ n k raw, Draws strict file (accepted (readLines file source)) n raw d.complaint ∧
      d.Points file source n k raw := by
  unfold reviewed at h
  dsimp only at h
  split at h
  · exact exists_draws_of_refusals (mem_findings_of_errors h)
  · rename_i hr
    have hnone := Review.error?_eq_none_iff.1 (Option.not_isSome_iff_eq_none.1 hr)
    exact exists_draws_of_findings (eq_map_accepted (failures_refusals_eq_nil hnone))
      (mem_findings_of_errors h)

/-- Every error of an assembly is what its review amounts to, and every diagnostic of the review is
    about a line of the source, which it names and shows with a mark below its first character that is
    no blank. -/
theorem diagnostic_places (a : Assembler) (file source : String) :
    (∀ e, (a.assemble file source).2.outcome = .error e ↔
      (reviewed a.strict file source).error? = some e) ∧
    ∀ d ∈ (reviewed a.strict file source).collector.errors, ∃ n k raw,
      Draws a.strict file (accepted (readLines file source)) n raw d.complaint ∧
        d.Points file source n k raw ∧
        (OneLine file.toList → (Text.lines d.render.toList).take 3 = [d.headline.toList,
          Text.blanks 4 ++ Text.trimRight raw, Text.blanks (4 + k) ++ ['^']]) := by
  refine ⟨outcome_eq_error_iff a file source, fun d hd => ?_⟩
  obtain ⟨n, k, raw, hdraws, hpoints⟩ := exists_draws hd
  refine ⟨n, k, raw, hdraws, hpoints, fun hfile => ?_⟩
  rw [hpoints.text, hpoints.headline hfile]
  rfl

/-- A declaration and two instructions that are refused, behind blanks and line breaks of several
    kinds. -/
def misplaced : String := "\tx = 12345\u2028\r\n   LODA x // y\u0085\u00a0 READ \nHALT"

theorem diagnostic_places_misplaced :
    (reviewed false "misplaced" misplaced).collector.errors.map Diagnostic.location =
      #[some ⟨"misplaced", 1, 2⟩, some ⟨"misplaced", 3, 4⟩, some ⟨"misplaced", 4, 3⟩] ∧
    ∀ d ∈ (reviewed false "misplaced" misplaced).collector.errors, ∃ (n k : Nat) (raw : List Char),
      (Text.lines misplaced.toList)[n]? = some raw ∧ d.location = some ⟨"misplaced", n + 1, k + 1⟩ ∧
        (Text.lines d.render.toList).take 3 = [d.headline.toList,
          Text.blanks 4 ++ Text.trimRight raw, Text.blanks (4 + k) ++ ['^']] := by
  refine ⟨by decide +kernel, fun d hd => ?_⟩
  obtain ⟨n, k, raw, -, hpoints, hlines⟩ :=
    (diagnostic_places (.new false) "misplaced" misplaced).2 d hd
  exact ⟨n, k, raw, hpoints.line, hpoints.location, hlines (by decide)⟩

end Assembly

end DecimalMachine
