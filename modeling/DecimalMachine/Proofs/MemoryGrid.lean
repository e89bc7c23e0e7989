import DecimalMachine.Dump
import DecimalMachine.Proofs.LineReading
/-
  The grid of memory. Its rows are the cells in tens (`gridRows_eq`), and no row breaks into lines, so
  that the lines of the grid are its title, its heading and the rows (`lines_memory`). A field that
  is wider than its column still ends in a gap; so a row falls apart into the address in front of it
  and the texts of its cells (`words_row`), as long as each cell is shown as one word (`IsWord`). Row
  after row, every cell is shown once and in the order of the addresses (`memory_grid`).
-/
namespace DecimalMachine

namespace Text

/-! ## Fields -/

theorem blank_of_mem_blanks {n : Nat} {c : Char} (h : c ∈ blanks n) : isBlank c = true := by
  obtain rfl := List.eq_of_mem_replicate h
  decide

/-- A word in a column, with a gap behind it, is a word whatever its width. -/
theorem words_padLeft_append {w : List Char} (hne : w ≠ []) (hw : ∀ c ∈ w, isBlank c = false)
    (width gap : Nat) (r : List Char) :
    words (padLeft width w ++ blanks (gap + 1) ++ r) = w :: words r := by
  have hcut : padLeft width w ++ blanks (gap + 1) ++ r =
      blanks (width - w.length) ++ (w ++ (blanks (gap + 1) ++ r)) := by
    unfold padLeft List.leftpad blanks
    simp only [List.append_assoc]
  rw [hcut, words_append_left fun _ => blank_of_mem_blanks,
    words_append hne hw (fun c hc => blank_of_mem_blanks (n := gap + 1) (by
      obtain rfl := Option.some.inj hc
      exact List.mem_cons_self)),
    words_append_left fun _ => blank_of_mem_blanks]

/-! ## Numbers with a sign -/

theorem not_blank_of_mem_signed {width : Nat} {n : Int} {c : Char} (h : c ∈ signed width n) :
    isBlank c = false := by
  unfold signed at h
  rcases List.mem_cons.1 h with rfl | h
  · split <;> decide
  · exact not_blank_of_mem_zeroPad h

theorem splitSign_signed (width : Nat) (n : Int) :
    splitSign (signed width n) = (decide (n < 0), zeroPad width n.natAbs) := by
  unfold signed
  by_cases h : n < 0
  · rw [if_pos h, decide_eq_true h]
    rfl
  · rw [if_neg h, decide_eq_false h]
    rfl

theorem intOfNumeral_signed {width : Nat} {n : Int}
    (h : (zeroPad width n.natAbs).length ≤ maxDigits) : intOfNumeral (signed width n) = .ok n := by
  unfold intOfNumeral
  rw [splitSign_signed, natOfDigits_zeroPad h]
  exact congrArg Except.ok (applySign_natAbs n)

theorem isNumeral_signed (width : Nat) (n : Int) : isNumeral (signed width n) = true := by
  unfold isNumeral
  rw [splitSign_signed]
  exact isDigits_zeroPad _ _

end Text

namespace Dump

open Text (OneLine)

/-! ## Cells -/

/-- A cell is shown as one word: its token is one, or its number can be written. -/
def IsWord : Cell → Prop
  | .num n => ∃ t, Text.writeNumeral n = .ok t
  | .raw t => t ≠ "" ∧ ∀ c ∈ t.toList, Text.isBlank c = false

theorem cellText_ne_nil {c : Cell} (h : IsWord c) : cellText c ≠ [] := by
  cases c with
  | num n => exact List.cons_ne_nil _ _
  | raw t => exact fun hnil => h.1 (String.toList_eq_nil_iff.1 hnil)

theorem not_blank_of_mem_cellText {c : Cell} (h : IsWord c) :
    ∀ x ∈ cellText c, Text.isBlank x = false := by
  cases c with
  | num n => exact fun _ => Text.not_blank_of_mem_signed
  | raw t => exact h.2

/-- The text of a number in the grid stands for that number. -/
theorem parse_cellText {n : Int} (h : IsWord (.num n)) :
    Word.parse (String.ofList (cellText (.num n))) = .ok (some n) := by
  have hlen : (Text.zeroPad 4 n.natAbs).length ≤ maxDigits := by
    obtain ⟨t, ht⟩ := h
    rw [Text.zeroPad_length]
    refine Nat.max_le.2 ⟨by decide, ?_⟩
    by_contra hlong
    unfold Text.writeNumeral at ht
    rw [if_neg hlong] at ht
    cases ht
  unfold Word.parse Text.readNumeral
  rw [String.toList_ofList, Text.trim_of_not_blank (not_blank_of_mem_cellText h)]
  unfold cellText
  rw [if_pos (Text.isNumeral_signed 4 n), Text.intOfNumeral_signed hlen]
  rfl

/-! ## Rows -/

theorem words_fields {cells : List Cell} (h : ∀ c ∈ cells, IsWord c) :
    Text.words (cells.flatMap fun c => field (cellText c)) = cells.map cellText := by
  induction cells with
  | nil => rfl
  | cons c cells ih =>
    obtain ⟨hc, hcells⟩ := List.forall_mem_cons.1 h
    rw [List.flatMap_cons, List.map_cons, ← ih hcells]
    exact Text.words_padLeft_append (cellText_ne_nil hc) (not_blank_of_mem_cellText hc) 5 3 _

/-- A row falls apart into the address of its first cell and the texts of its cells. -/
theorem words_row {cells : List Cell} (h : ∀ c ∈ cells, IsWord c) (address : Nat) :
    Text.words (row address cells).toList = Text.zeroPad 2 address :: cells.map cellText := by
  unfold row trimmed
  rw [String.toList_ofList, Text.words_trimRight, List.append_assoc, Text.words_append
    (Text.zeroPad_ne_nil 2 address) (fun _ => Text.not_blank_of_mem_zeroPad)
    (fun c hc => by obtain rfl := Option.some.inj hc; decide),
    Text.words_append_left fun _ => Text.blank_of_mem_blanks, words_fields h]

/-- The rows are the cells in tens. -/
theorem gridRows_eq {rows : Nat} {cells : List Cell} (h : cells.length ≤ columns * rows)
    (address : Nat) : gridRows rows address cells =
      (List.range ((cells.length + 9) / columns)).map fun r =>
        row (address + columns * r) ((cells.drop (columns * r)).take columns) := by
  unfold columns at h ⊢
  induction rows generalizing address cells with
  | zero =>
    obtain rfl := List.eq_nil_of_length_eq_zero (Nat.le_zero.1 h)
    rfl
  | succ rows ih =>
    cases hcells : cells with
    | nil => rfl
    | cons c rest =>
      rw [← hcells]
      have hpos : 0 < cells.length := by rw [hcells]; exact Nat.zero_lt_succ _
      have hdrop : (cells.drop 10).length = cells.length - 10 := List.length_drop
      have hcount : (cells.length + 9) / 10 = ((cells.drop 10).length + 9) / 10 + 1 := by omega
      have hunfold : gridRows (rows + 1) address cells =
          row address (cells.take columns) ::
            gridRows rows (address + columns) (cells.drop columns) := by
        rw [hcells]
        rfl
      rw [hunfold, hcount, List.range_succ_eq_map, List.map_cons, List.map_map]
      unfold columns
      rw [ih (by omega)]
      refine congrArg₂ _ rfl (List.map_congr_left fun r _ => ?_)
      dsimp only [Function.comp]
      rw [List.drop_drop, Nat.add_assoc, Nat.mul_succ, Nat.add_comm 10 (10 * r)]

theorem gridRows_cells (m : Memory) : gridRows m.size 0 m.cells.toList =
    (List.range ((m.size + 9) / 10)).map fun r =>
      row (10 * r) ((m.cells.toList.drop (10 * r)).take 10) := by
  have hlen : m.cells.toList.length ≤ columns * m.size := by
    unfold columns Memory.size
    rw [Array.length_toList]
    omega
  rw [gridRows_eq hlen, Array.length_toList]
  refine List.map_congr_left fun r _ => ?_
  rw [Nat.zero_add]
  rfl

theorem isWord_tens {m : Memory} (h : ∀ c ∈ m.cells, IsWord c) (r : Nat) :
    ∀ c ∈ (m.cells.toList.drop (10 * r)).take 10, IsWord c := fun c hc =>
  h c (Array.mem_toList_iff.1 (List.mem_of_mem_drop (List.mem_of_mem_take hc)))

/-! ## Lines -/

theorem oneLine_trimmed {s : List Char} (h : OneLine s) : OneLine (trimmed s).toList := by
  unfold trimmed
  rw [String.toList_ofList]
  exact h.trimRight

theorem oneLine_fields {cells : List Cell} (h : ∀ c ∈ cells, IsWord c) :
    OneLine (cells.flatMap fun c => field (cellText c)) := by
  intro x hx
  obtain ⟨c, hc, hx⟩ := List.mem_flatMap.1 hx
  have hcell : OneLine (cellText c) :=
    Text.oneLine_of_not_blank (not_blank_of_mem_cellText (h c hc))
  exact ((hcell.padLeft 5).append (Text.oneLine_blanks 4)) x hx

theorem oneLine_row {cells : List Cell} (h : ∀ c ∈ cells, IsWord c) (address : Nat) :
    OneLine (row address cells).toList :=
  oneLine_trimmed
    (((Text.oneLine_zeroPad 2 _).append (Text.oneLine_blanks 4)).append (oneLine_fields h))

/-- A line of the grid has something on it, and no break within. -/
theorem line_memoryLines {m : Memory} (h : ∀ c ∈ m.cells, IsWord c) :
    ∀ l ∈ memoryLines m, l.toList ≠ [] ∧ OneLine l.toList := by
  intro l hl
  unfold memoryLines at hl
  rw [gridRows_cells] at hl
  rcases List.mem_cons.1 hl with rfl | hl
  · exact ⟨by decide, by decide⟩
  rcases List.mem_cons.1 hl with rfl | hl
  · exact ⟨by decide +kernel, by decide +kernel⟩
  obtain ⟨r, -, rfl⟩ := List.mem_map.1 hl
  refine ⟨fun hnil => ?_, oneLine_row (isWord_tens h r) _⟩
  have hwords := words_row (isWord_tens h r) (10 * r)
  rw [hnil] at hwords
  cases hwords

/-- Read line by line, the grid is its title, its heading and its rows. -/
theorem lines_memory {m : Memory} (h : ∀ c ∈ m.cells, IsWord c) :
    Text.lines (memory m).toList = (memoryLines m).map String.toList :=
  Text.lines_intercalate_filled (line_memoryLines h)

/-- Tens that follow one another make up the cells in front of the next. -/
theorem flatMap_tens (cells : List Cell) (rows : Nat) :
    ((List.range rows).flatMap fun r => (cells.drop (10 * r)).take 10) =
      cells.take (10 * rows) := by
  induction rows with
  | zero => rfl
  | succ rows ih =>
    rw [List.range_succ, List.flatMap_append, ih, List.flatMap_singleton, ← List.take_add,
      Nat.mul_succ]

/-- The words on the lines behind the heading: a row for every ten cells. -/
theorem words_lines {m : Memory} (h : ∀ c ∈ m.cells, IsWord c) :
    ((Text.lines (memory m).toList).drop 2).map Text.words =
      (List.range ((m.size + 9) / 10)).map fun r =>
        Text.zeroPad 2 (10 * r) :: ((m.cells.toList.drop (10 * r)).take 10).map cellText := by
  rw [lines_memory h]
  unfold memoryLines
  rw [List.map_cons, List.map_cons, List.drop_succ_cons, List.drop_succ_cons, List.drop_zero,
    gridRows_cells, List.map_map, List.map_map]
  refine List.map_congr_left fun r _ => ?_
  dsimp only [Function.comp]
  rw [words_row (isWord_tens h r)]

/--
Under its title and its heading the grid has a line for every ten cells, the last of them for what
is left. The line falls apart into the address of its first cell and the texts of its cells; so each
cell is shown once, in the order of the addresses, and a number that is shown is read back.
-/
theorem memory_grid (m : Memory) (h : ∀ c ∈ m.cells, IsWord c) :
    (Text.lines (memory m).toList).length = 2 + (m.size + 9) / 10 ∧
      (∀ r, 10 * r < m.size → ∃ line, (Text.lines (memory m).toList)[2 + r]? = some line ∧
        Text.words line =
          Text.zeroPad 2 (10 * r) :: ((m.cells.toList.drop (10 * r)).take 10).map cellText) ∧
      (((Text.lines (memory m).toList).drop 2).flatMap fun line => (Text.words line).tail) =
        m.cells.toList.map cellText ∧
      ∀ n, Cell.num n ∈ m.cells →
        Word.parse (String.ofList (cellText (.num n))) = .ok (some n) := by
  have hwords := words_lines h
  refine ⟨?_, fun r hr => ?_, ?_, fun n hn => parse_cellText (h _ hn)⟩
  · rw [lines_memory h]
    unfold memoryLines
    rw [List.length_map, List.length_cons, List.length_cons, gridRows_cells, List.length_map,
      List.length_range]
    omega
  · have hrow := congrArg (·[r]?) hwords
    simp only [List.getElem?_map, List.getElem?_drop,
      List.getElem?_range (show r < (m.size + 9) / 10 by omega), Option.map_some] at hrow
    exact Option.map_eq_some_iff.1 hrow
  · have htails := congrArg (List.flatMap List.tail) hwords
    rw [List.flatMap_map, List.flatMap_map] at htails
    refine htails.trans ?_
    dsimp only [List.tail_cons]
    rw [← List.map_flatMap]
    refine congrArg (List.map cellText) ((flatMap_tens m.cells.toList _).trans ?_)
    refine List.take_of_length_le ?_
    unfold Memory.size
    rw [Array.length_toList]
    omega

/-- Cells that are wider than their column, and a row that is not full. -/
theorem memory_grid_wide : ∃ line,
    (Text.lines (memory ⟨#[.num 0, .num 0, .num 0, .num 0, .num 0, .num 0, .num 0, .num 0,
      .raw "wide-token", .num (-1234567), .num 4300, .raw "+"], by decide⟩).toList)[3]? = some line ∧
    Text.words line = ["10", "+4300", "+"].map String.toList := by
  have hcells : ∀ c ∈ #[Cell.num 0, .num 0, .num 0, .num 0, .num 0, .num 0, .num 0, .num 0,
      .raw "wide-token", .num (-1234567), .num 4300, .raw "+"], IsWord c := by
    intro c hc
    have hword : c = .num 0 ∨ c = .raw "wide-token" ∨ c = .num (-1234567) ∨ c = .num 4300 ∨
        c = .raw "+" := by simpa using hc
    rcases hword with rfl | rfl | rfl | rfl | rfl
    · exact ⟨_, rfl⟩
    · exact ⟨by decide, by decide⟩
    · exact ⟨_, rfl⟩
    · exact ⟨_, rfl⟩
    · exact ⟨by decide, by decide⟩
  obtain ⟨line, hline, hwords⟩ := (memory_grid ⟨_, by decide⟩ hcells).2.1 1 (by decide)
  exact ⟨line, hline, hwords⟩

end Dump

end DecimalMachine
