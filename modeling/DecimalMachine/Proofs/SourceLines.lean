import DecimalMachine.Proofs.LineLayout
import DecimalMachine.Proofs.SourceNames
/-
  Lines as they stand in a source. A source whose lines can all be read has one line for each line of
  its text, with the number and the characters of that line (`readLine_of_readLines`). What an
  instruction line says is cut into words from what is left of it without its comment
  (`code_of_readLine`).
-/
namespace DecimalMachine.Source

/-! ## Places -/

section

variable {file source : String} {lines : List Line} (h : readLines file source = lines.map .ok)
include h

theorem length_of_readLines : lines.length = (Text.lines source.toList).length := by
  have hlen := congrArg List.length h
  unfold readLines at hlen
  simpa using hlen.symm

/-- The lines are those of the text, one by one. -/
theorem readLine_of_readLines {i : Nat} {l : Line} (hl : lines[i]? = some l) :
    (Text.lines source.toList)[i]? = some l.raw.toList ∧ readLine file (i + 1) l.raw = .ok l := by
  have hi := congrArg (·[i]?) h
  unfold readLines at hi
  simp only [List.getElem?_map, List.getElem?_zipIdx, hl, Option.map_some] at hi
  cases hraw : (Text.lines source.toList)[i]? with
  | none =>
    rw [hraw] at hi
    cases hi
  | some raw =>
    rw [hraw] at hi
    have hread : readLine file (i + 1) (String.ofList raw) = .ok l := by simpa using hi
    obtain ⟨-, hl', -⟩ := of_readLine hread
    rw [hl', String.toList_ofList]
    exact ⟨rfl, hread⟩

theorem map_raw_of_readLines : (lines.map fun l => l.raw.toList) = Text.lines source.toList := by
  refine List.ext_getElem? fun i => ?_
  rw [List.getElem?_map]
  cases hl : lines[i]? with
  | some l => exact (readLine_of_readLines h hl).1.symm
  | none =>
    have hi := List.getElem?_eq_none_iff.1 hl
    exact (List.getElem?_eq_none (length_of_readLines h ▸ hi)).symm

theorem readLine_of_mem {l : Line} (hl : l ∈ lines) :
    ∃ number, readLine file number l.raw = .ok l := by
  obtain ⟨i, hi⟩ := List.getElem?_of_mem hl
  exact ⟨_, (readLine_of_readLines h hi).2⟩

/-- No line holds a line break. -/
theorem one_line_raw {l : Line} (hl : l ∈ lines) : ∀ c ∈ l.raw.toList, Text.isLineBreak c = false := by
  obtain ⟨i, hi⟩ := List.getElem?_of_mem hl
  exact Text.not_lineBreak_of_mem_lines (List.mem_of_getElem? (readLine_of_readLines h hi).1)

theorem file_of_mem {l : Line} (hl : l ∈ lines) : l.location.file = file := by
  obtain ⟨number, hread⟩ := readLine_of_mem h hl
  exact congrArg Location.file (of_readLine hread).1

end

/-! ## What lines say -/

/-- The name of a label is a part of the line that defines it. -/
theorem infix_of_defined? {file : String} {number : Int} {raw : String} {l : Line}
    (h : readLine file number raw = .ok l) {x : String} (hx : l.defined? = some x) :
    x.toList <:+: raw.toList := by
  unfold Line.defined? at hx
  rcases says_of_readLine h with hs | hs | hs
  · rw [hs] at hx
    cases hx
  · rw [hs] at hx
    cases hx
  · generalize ho : some l.statement = o at hs
    cases hs with
    | nameless => cases ho
    | defines =>
      rw [Option.some.inj ho] at hx
      obtain rfl := Option.some.inj hx
      rw [String.toList_ofList]
      have htrim : Text.trim (stripComment (Text.trim raw.toList)).dropLast <:+:
          stripComment (Text.trim raw.toList) :=
        (Text.trim_isInfix _).trans (List.dropLast_prefix _).isInfix
      exact htrim.trans ((stripComment_isInfix _).trans (Text.trim_isInfix _))
    | declares =>
      rw [Option.some.inj ho] at hx
      cases hx
    | operates =>
      rw [Option.some.inj ho] at hx
      cases hw : Text.words (stripComment (Text.trim raw.toList)) <;> rw [hw] at hx <;> cases hx

/-- What an instruction line says are the words in front of its comment. -/
theorem code_of_readLine {file : String} {number : Int} {raw : String} {l : Line}
    (h : readLine file number raw = .ok l) (hc : l.isCode = true) :
    l.text.toList = stripComment raw.toList ∧
      l.statement = statementOfWords (Text.words (stripComment raw.toList)) := by
  have hread := of_readLine h
  rw [stripComment_trim] at hread
  obtain ⟨-, -, hs | hs | ⟨htext, -, hs⟩⟩ := hread
  · unfold Line.isCode at hc
    rw [hs] at hc
    cases hc
  · unfold Line.isCode at hc
    rw [hs] at hc
    cases hc
  · refine ⟨htext ▸ String.toList_ofList, ?_⟩
    have hsays := says_of_statement hs
    generalize ho : some l.statement = o at hsays
    cases hsays with
    | operates => exact Option.some.inj ho
    | nameless => cases ho
    | _ =>
      unfold Line.isCode at hc
      rw [Option.some.inj ho] at hc
      cases hc

end DecimalMachine.Source
