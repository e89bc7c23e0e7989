import DecimalMachine.Proofs.ImageText
import DecimalMachine.Proofs.Placement
import DecimalMachine.Proofs.Twins
/-
  Program files: an assembled program that is loaded straight, beside the same program written to a
  file and read back. Both ways check the number of words and the range of their numbers, one of them
  in memory and the other in the text. The words of a text that has been read pass every check but
  the one for room (`loadInto_eq_error_iff`), and the words of a program are such words; so both ways
  are refused for the same reason, or else they end in the same emulator (`load_program_file`).
-/
namespace DecimalMachine

/-! ## Reading a file -/

namespace Text

theorem normalizeBreaks_of_no_cr {s : List Char} (h : ∀ c ∈ s, c ≠ '\r') :
    normalizeBreaks s = s := by
  fun_induction normalizeBreaks s with
  | case1 => rfl
  | case2 r ih => exact absurd rfl (h '\r' List.mem_cons_self)
  | case3 c r _ ih =>
    rw [if_neg (h c List.mem_cons_self), ih fun d hd => h d (List.mem_cons_of_mem c hd)]

theorem mem_intercalate_newline {ls : List (List Char)} {c : Char}
    (h : c ∈ ['\n'].intercalate ls) : c = '\n' ∨ ∃ l ∈ ls, c ∈ l := by
  induction ls with
  | nil => cases h
  | cons l ls ih =>
    cases ls with
    | nil =>
      rw [List.intercalate_singleton] at h
      exact .inr ⟨l, List.mem_cons_self, h⟩
    | cons k ks =>
      rw [List.intercalate_cons_cons] at h
      rcases List.mem_append.1 h with h | h
      · rcases List.mem_append.1 h with h | h
        · exact .inr ⟨l, List.mem_cons_self, h⟩
        · exact .inl (List.mem_singleton.1 h)
      · rcases ih h with hc | ⟨m, hm, hc⟩
        · exact .inl hc
        · exact .inr ⟨m, List.mem_cons_of_mem l hm, hc⟩

end Text

namespace Image

/-- The text of a well-formed image is read from a file as it was written. -/
theorem normalizeBreaksIn_toText {i : Image} (h : i.WellFormed) :
    Text.normalizeBreaksIn i.toText = i.toText := by
  unfold Text.normalizeBreaksIn
  rw [Text.normalizeBreaks_of_no_cr, String.ofList_toList]
  rintro c hc rfl
  rw [toList_toText] at hc
  rcases List.mem_append.1 hc with hc | hc
  · rcases Text.mem_intercalate_newline hc with hc | ⟨l, hl, hc⟩
    · cases hc
    · obtain ⟨line, hline, rfl⟩ := List.mem_map.1 hl
      have hbreak := one_line_textLines h line hline '\r' hc
      cases hbreak
  · cases List.mem_singleton.1 hc

/-! ## Room -/

theorem IsWord.parse {w : String} (h : IsWord w.toList) :
    ∃ value, Word.parse w = .ok value ∧ ∀ n ∈ value, Word.inRange n = true := by
  have htakes := (takes_iff h.ne_nil h.trimmed h.no_comment).2 h
  rw [String.ofList_toList] at htakes
  exact htakes.2

/-- Words can be read as cells, and their numbers are in range. -/
theorem cells_of_words {words : List String} (h : ∀ w ∈ words, IsWord w.toList) :
    ∃ cells, ReadAs words cells ∧ ∀ v, Cell.num v ∈ cells → Word.inRange v = true := by
  induction words with
  | nil => exact ⟨[], .nil, nofun⟩
  | cons w words ih =>
    obtain ⟨value, hvalue, hin⟩ := (h w List.mem_cons_self).parse
    obtain ⟨cells, hcells, hall⟩ := ih fun v hv => h v (List.mem_cons_of_mem w hv)
    refine ⟨cellOf w value :: cells, .cons (ofText_of_parse hvalue) hcells, fun v hv => ?_⟩
    rcases List.mem_cons.1 hv with hv | hv
    · exact hin v (cellOf_eq_num.1 hv.symm)
    · exact hall v hv

/-- Without room for its words an image leaves memory alone. -/
theorem loadOver_of_lt {i : Image} {m : Memory} (h : m.size < i.words.length) :
    i.loadOver m = (m, .error (.tooManyWords i.words.length m.size)) := by
  refine loadOver_of_error ?_
  unfold cellsFor
  rw [if_pos h]

/-- An image of words that starts at one of them is refused if memory has no room for it, and for no
    other reason. -/
theorem loadInto_eq_error_iff {i : Image} (h : ∀ w ∈ i.words, IsWord w.toList) (hi : i.Placed)
    {m : Memory} {err : ImageError} : i.loadInto m = .error err ↔
      m.size < i.words.length ∧ err = .tooManyWords i.words.length m.size := by
  by_cases hl : m.size < i.words.length
  · rw [loadInto_eq (loadOver_of_lt hl), and_iff_right hl]
    show Except.error _ = Except.error err ↔ _
    rw [Except.error.injEq, eq_comm]
  · have hroom := Nat.not_lt.1 hl
    have horigin : 0 ≤ i.origin := hi.1
    have hw := m.isWritable_of_le_size (by omega) (Int.le_trans hi.2 (Int.ofNat_le.2 hroom))
    obtain ⟨cells, hcells, hin⟩ := cells_of_words h
    have hok := loadInto_eq_ok_iff.2 ⟨hw, hroom, cells, hcells, hin, rfl⟩
    rw [hok]
    exact iff_of_false nofun fun hn => hl hn.1

theorem words_of_parse {text : String} {capacity : Option Int} {i : Image}
    (h : (parse text capacity).result = .ok i) : ∀ w ∈ i.words, IsWord w.toList := by
  obtain ⟨r, hr, hi⟩ := parse_eq_ok_iff.1 h
  obtain ⟨-, rfl⟩ := Reading.finish_eq_ok_iff.1 hi
  exact (Reading.good_start.takeLines (fun _ => Text.not_lineBreak_of_mem_lines) hr).words

/-- A text that can be read is read with a capacity too, if that is enough for its words. -/
theorem parse_of_capacity {text : String} {i : Image} (h : (parse text none).result = .ok i) {n : Nat}
    (hn : i.words.length ≤ n) : (parse text (some n)).result = .ok i := by
  obtain ⟨r, hr, hi⟩ := parse_eq_ok_iff.1 h
  obtain ⟨-, rfl⟩ := Reading.finish_eq_ok_iff.1 hi
  refine parse_eq_ok_iff.2 ⟨r, hr, Reading.finish_eq_ok_iff.2 ⟨fun c hc => ?_, rfl⟩⟩
  obtain rfl := Option.some.inj hc
  exact Int.ofNat_le.2 hn

/-- Otherwise it is refused for the number of its words, and for no other reason. -/
theorem parse_eq_error_iff {text : String} {i : Image} (h : (parse text none).result = .ok i)
    {n : Nat} {err : ImageError} : (parse text (some n)).result = .error err ↔
      n < i.words.length ∧ err = .tooManyWords i.words.length n := by
  by_cases hn : n < i.words.length
  · obtain ⟨r, hr, hi⟩ := parse_eq_ok_iff.1 h
    obtain ⟨-, rfl⟩ := Reading.finish_eq_ok_iff.1 hi
    have hlt : (n : Int) < r.words.size := Int.ofNat_lt.2 hn
    have hover : (some (n : Int)).filter (fun c => c < (r.words.size : Int)) = some (n : Int) :=
      if_pos (decide_eq_true hlt)
    have hparse : (parse text (some n)).result = .error (.tooManyWords r.words.size n) := by
      unfold parse
      rw [hr]
      unfold Reading.finish
      dsimp only
      rw [hover]
    rw [hparse, and_iff_right hn, Except.error.injEq, eq_comm]
    rfl
  · rw [parse_of_capacity h (Nat.not_lt.1 hn)]
    exact iff_of_false nofun fun hlt => hn hlt.1

/-- An image that has been read from a text is refused by memory exactly as the text is refused with
    the size of memory as its capacity. -/
theorem loadInto_eq_error_iff_parse {text : String} {i : Image}
    (h : (parse text none).result = .ok i) (m : Memory) (err : ImageError) :
    i.loadInto m = .error err ↔ (parse text (some m.size)).result = .error err := by
  rw [loadInto_eq_error_iff (words_of_parse h) (placed_of_parse h), parse_eq_error_iff h]

end Image

/-! ## Programs -/

namespace Program

theorem length_words_toImage (p : Program) : p.toImage.words.length = p.size := by
  rw [words_toImage, List.length_map, length_numbers]

/-- Memory holds the numbers of the words of a program, and zeros behind them. -/
structure Fills (p : Program) (m : Memory) : Prop where
  words : ∀ a (h : a < p.toImage.words.length), ∃ n : Int,
    Word.parse p.toImage.words[a] = .ok (some n) ∧ m.read? a = some (.num n)
  zeros : ∀ a : Nat, p.size ≤ a → a < m.size → m.read? a = some .zero

theorem fills_placed {p : Program} {m : Memory} (h : ∀ n ∈ p.numbers, Word.inRange n = true)
    (hsize : p.size ≤ m.size) : p.Fills (p.placed m) := by
  refine ⟨fun a ha => ?_, fun a ha hm => ?_⟩
  · have hn : a < p.numbers.length := by rwa [length_words_toImage, ← length_numbers] at ha
    have hword : p.toImage.words[a] = Word.render p.numbers[a] := by simp [words_toImage]
    refine ⟨p.numbers[a], ?_, ?_⟩
    · rw [hword]
      exact Word.parse_render_of_inRange (h _ (List.getElem_mem hn))
    · rw [length_numbers] at hn
      rw [read?_placed hsize, if_pos (Nat.lt_of_lt_of_le hn hsize),
        List.getElem?_eq_getElem (by rwa [length_numbers])]
      rfl
  · rw [size_placed] at hm
    rw [read?_placed hsize, if_pos hm, List.getElem?_eq_none (by rwa [length_numbers])]
    rfl

theorem inRange_of_compiled {lines : List Line} {p : Program} (h : Assembly.Compiled lines p) :
    ∀ n ∈ p.numbers, Word.inRange n = true := by
  intro n hn
  rcases List.mem_append.1 hn with hn | hn
  · obtain ⟨s, hs, rfl⟩ := List.mem_map.1 hn
    exact (h.tables.symbols.initials s (mem_symbolsByAddress.1 hs)).2
  · obtain ⟨i, hi, rfl⟩ := List.mem_map.1 hn
    obtain ⟨k, hk, rfl⟩ := List.mem_iff_getElem.1 hi
    exact Assembly.inRange_of_assembles (h.assembles k hk (h.length ▸ hk))

end Program

/-! ## Both ways to load -/

namespace Emulator

open Machine

variable {e : Emulator}

theorem same_addNotes (e : Emulator) (notes : Array Note) :
    Same e (e.modify (addNotes · notes)) := by
  obtain ⟨ha, hr⟩ := addNotes_exact e.machine notes
  exact (Same.refl e).setMachine ⟨ha.symm, hr.symm⟩

/-- While nothing is in memory, a text has the effect of the image that it is read as. -/
theorem same_loadText {text : String} {i : Image} (h : (Image.parse text none).result = .ok i)
    (hm : e.machine.memory.clear = e.machine.memory) :
    (e.load i).2 = (e.loadText text).2 ∧ Same (e.load i).1 (e.loadText text).1 := by
  have hnotes := e.same_addNotes (Image.parse text (some e.machine.memory.size)).notes
  unfold loadText
  dsimp only
  cases hr : (Image.parse text (some e.machine.memory.size)).result with
  | error err =>
    obtain ⟨hlt, rfl⟩ := (Image.parse_eq_error_iff h).1 hr
    have hrefused := Image.loadOver_of_lt hlt
    rw [← hm] at hrefused
    rw [load_of_refused hrefused, hm]
    exact ⟨rfl, hnotes⟩
  | ok i' =>
    have hroom : i.words.length ≤ e.machine.memory.size := by
      refine Nat.not_lt.1 fun hlt => ?_
      rw [(Image.parse_eq_error_iff h).2 ⟨hlt, rfl⟩] at hr
      cases hr
    obtain rfl := Except.ok.inj ((Image.parse_of_capacity h hroom).symm.trans hr)
    exact hnotes.load i

/-- What an image of a program does to an emulator, or why it is refused. -/
theorem load_toImage {p : Program} (hin : ∀ n ∈ p.numbers, Word.inRange n = true) :
    (e.load p.toImage).2 =
        (if e.machine.memory.size < p.size then some (.tooManyWords p.size e.machine.memory.size)
         else none) ∧
      (p.size ≤ e.machine.memory.size → p.Fills (e.load p.toImage).1.machine.memory ∧
        (e.load p.toImage).1.machine.regs = .startAt p.origin ∧
        (e.load p.toImage).1.machine.state = .running) := by
  by_cases hlt : e.machine.memory.size < p.size
  · have hroom : e.machine.memory.clear.size < p.toImage.words.length := by
      rwa [p.length_words_toImage, Memory.size_clear]
    rw [load_of_refused (Image.loadOver_of_lt hroom), if_pos hlt, p.length_words_toImage,
      Memory.size_clear]
    exact ⟨rfl, fun hle => absurd hlt (Nat.not_lt.2 hle)⟩
  · have hle := Nat.not_lt.1 hlt
    obtain ⟨k, hload, hk, -⟩ := load_of_loadInto (Program.loadInto_placed hin hle)
    have hmemory : k.memory = p.placed e.machine.memory := hk.memory
    rw [hload, if_neg hlt]
    refine ⟨rfl, fun _ => ⟨?_, hk.regs, hk.state⟩⟩
    rw [hmemory]
    exact Program.fills_placed hin hle

/-- Loading a program straight and reading the file that it is written to come to the same. On two
    fresh emulators both are refused with the same error, exactly if the program has more words than
    there are cells, or both fill memory with the numbers of its words, start at its origin, and from
    then on answer all calls alike. Any text that can be read at all is refused by memory with the
    error that it is refused with when it is read with that capacity. -/
theorem load_program_file :
    (∀ (a : Assembler) (filename source : String) (p : Program),
      (a.assemble filename source).2.outcome = .ok p →
      ∀ (size : Nat) (h : IsMemorySize size) (input : List String) (limit : Option Int),
        let fresh := Emulator.new (.zeros size h) input limit
        let straight := fresh.load p.toImage
        let read := fresh.loadText (Text.normalizeBreaksIn p.toImage.toText)
        straight.2 = read.2 ∧ Same straight.1 read.1 ∧
        straight.2 = (if size < p.size then some (.tooManyWords p.size size) else none) ∧
        (p.size ≤ size → p.Fills straight.1.machine.memory ∧
          straight.1.machine.regs = .startAt p.origin ∧ straight.1.machine.state = .running) ∧
        ∀ calls, straight.1.replies calls = read.1.replies calls ∧
          Same (straight.1.performAll calls) (read.1.performAll calls)) ∧
    ∀ (text : String) (i : Image), (Image.parse text none).result = .ok i →
      ∀ (m : Memory) (err : ImageError),
        i.loadInto m = .error err ↔ (Image.parse text (some m.size)).result = .error err := by
  refine ⟨fun a filename source p hp size h input limit => ?_,
    fun text i => Image.loadInto_eq_error_iff_parse⟩
  intro fresh straight read
  obtain ⟨lines, hread, hc, -⟩ := Assembly.compiled_of_assemble hp
  have hwell : p.toImage.WellFormed := Assembly.wellFormed_toImage hread hc
  have hsize : fresh.machine.memory.size = size := Memory.size_zeros size h
  have hclear : fresh.machine.memory.clear = fresh.machine.memory := by
    show Memory.zeros _ _ = Memory.zeros size h
    congr 1
  have hboth : straight.2 = read.2 ∧ Same straight.1 read.1 := by
    have hfile : read = fresh.loadText p.toImage.toText :=
      congrArg fresh.loadText (Image.normalizeBreaksIn_toText hwell)
    rw [hfile]
    exact same_loadText (Image.parse_toText hwell) hclear
  obtain ⟨hanswer, hfills⟩ := load_toImage (e := fresh) (Program.inRange_of_compiled hc)
  rw [hsize] at hanswer hfills
  exact ⟨hboth.1, hboth.2, hanswer, hfills, fun calls => hboth.2.performAll calls⟩

/-- A program of eight words: it fills eight cells, and seven are too few for its file too. -/
theorem load_program_file_tangled :
    (Assembly.tangledProgram.Fills
      ((new (.zeros 8 (by decide)) [] none).load Assembly.tangledProgram.toImage).1.machine.memory) ∧
    ((new (.zeros 7 (by decide)) [] none).loadText
      (Text.normalizeBreaksIn Assembly.tangledProgram.toImage.toText)).2 =
        some (.tooManyWords 8 7) := by
  have hok : ((Assembler.new false).assemble "tangled" Assembly.tangled).2.outcome.toBool = true := by
    decide +kernel
  have hsize : Assembly.tangledProgram.size = 8 := by decide +kernel
  have hassembled : ((Assembler.new false).assemble "tangled" Assembly.tangled).2.outcome =
      .ok Assembly.tangledProgram := Assembly.eq_ok_of_toBool hok _
  obtain ⟨-, -, -, hfills, -⟩ := load_program_file.1 _ _ _ _ hassembled 8 (by decide) [] none
  obtain ⟨hsame, -, hrefused, -⟩ := load_program_file.1 _ _ _ _ hassembled 7 (by decide) [] none
  refine ⟨(hfills (Nat.le_of_eq hsize)).1, ?_⟩
  rw [hsize] at hrefused
  exact hsame.symm.trans hrefused

end Emulator

end DecimalMachine
