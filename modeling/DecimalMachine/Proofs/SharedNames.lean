import Mathlib.Data.List.Forall2
import DecimalMachine.Proofs.AddressNames
import DecimalMachine.Proofs.Reassembly
/-
  The names that a disassembler shares among its images. It keeps the names of each image that it
  takes apart, so after some requests it knows its own names, and for other cells the name in the first
  of the images that has one (`get?_after`). An answer depends on the names of the cells that it shows
  and on nothing else of the table (`answer_eq_of_shown`). So it is the answer of a disassembler that has
  seen no other image if each of these cells has a name to begin with, or none in another image, or the
  same there as in its own; where no name breaks a line, only then (`answer_after`).
-/
namespace DecimalMachine

namespace AddressNames

/-- The name that is shown for an address. -/
def shown (t : AddressNames) (a : Int) : String := (t.get? a).getD ""

/-- No name breaks a line. -/
def Plain (t : AddressNames) : Prop := ∀ a x, t.get? a = some x → '\n' ∉ x.toList

theorem Plain.shown {t : AddressNames} (h : t.Plain) (a : Int) : '\n' ∉ (t.shown a).toList := by
  unfold AddressNames.shown
  cases hx : t.get? a with
  | none => exact List.not_mem_nil
  | some x => exact h a x hx

theorem Plain.orElse {t u : AddressNames} (ht : t.Plain) (hu : u.Plain) : (t.orElse u).Plain := by
  intro a x hx
  rw [get?_orElse] at hx
  rcases Option.or_eq_some_iff.1 hx with hx | ⟨-, hx⟩
  · exact ht a x hx
  · exact hu a x hx

end AddressNames

/-! ## Lines that differ in their ends -/

namespace Text

/-- Texts that are alike up to an end without a line feed. -/
def AlikeUpToEnd (x y : List Char) : Prop :=
  ∃ p s s', x = p ++ s ∧ y = p ++ s' ∧ '\n' ∉ s ∧ '\n' ∉ s'

/-- Such texts are told apart when they are written one below the other, whatever their other parts
    hold. -/
theorem eq_of_intercalate {xs ys : List (List Char)} (h : List.Forall₂ AlikeUpToEnd xs ys)
    (he : ['\n'].intercalate xs = ['\n'].intercalate ys) : xs = ys := by
  induction h with
  | nil => rfl
  | @cons x y xs ys hxy hrest ih =>
    cases hrest with
    | nil => simpa using he
    | @cons x' y' xs' ys' hxy' hrest' =>
      obtain ⟨p, s, s', rfl, rfl, hs, hs'⟩ := hxy
      rw [List.intercalate_cons_cons, List.intercalate_cons_cons] at he
      simp only [List.append_assoc, List.singleton_append, List.append_cancel_left_eq] at he
      obtain ⟨rfl, htail⟩ := cut_unique hs hs' he
      rw [ih htail]

end Text

/-! ## Names of decoded words -/

namespace Decoded

/-- The end of a line that a comment makes. -/
def commentTail (width : Nat) (comment : String) : List Char :=
  if comment.isEmpty then [] else Text.blanks (24 - width) ++ " // ".toList ++ comment.toList

theorem toList_commented (line comment : String) :
    (commented line comment).toList = line.toList ++ commentTail line.toList.length comment := by
  unfold commented commentTail
  split
  · rw [List.append_nil]
  · show (String.ofList (Text.padRight 24 line.toList) ++ " // " ++ comment).toList = _
    simp [Text.padRight, List.rightpad, Text.blanks]

theorem newline_notMem_commentTail {comment : String} (h : '\n' ∉ comment.toList) (width : Nat) :
    '\n' ∉ commentTail width comment := by
  unfold commentTail
  split
  · exact List.not_mem_nil
  · simp [Text.blanks, h]

/-- The comment of a line can be told from the line. -/
theorem commented_inj {line comment comment' : String} :
    commented line comment = commented line comment' ↔ comment = comment' := by
  refine ⟨fun h => ?_, congrArg _⟩
  have htail := congrArg String.toList h
  rw [toList_commented, toList_commented, List.append_cancel_left_eq] at htail
  unfold commentTail at htail
  by_cases hc : comment.isEmpty = true
  · by_cases hc' : comment'.isEmpty = true
    · rw [String.isEmpty_iff.1 hc, String.isEmpty_iff.1 hc']
    · simp [hc, hc'] at htail
  · by_cases hc' : comment'.isEmpty = true
    · simp [hc, hc'] at htail
    · rw [if_neg hc, if_neg hc', List.append_cancel_left_eq] at htail
      exact String.toList_injective htail

/-- The cell that an instruction names, and whose name stands behind it. -/
def cell? (d : Decoded) : Option Int :=
  d.opcode?.bind fun op => if op.addressesCell then some d.operand else none

/-- A decoded word with the name that a table has for its cell. -/
def named (t : AddressNames) (d : Decoded) : Decoded :=
  { d with comment := (d.cell?.map t.shown).getD "" }

theorem ofValue_eq_named (t : AddressNames) (text : String) (value : Option Int) (address : Int) :
    ofValue t text value address = (ofValue .empty text value address).named t := by
  cases value with
  | none => rfl
  | some w =>
    unfold ofValue
    dsimp only
    cases hop : Opcode.ofCode? (Word.split w).1 with
    | none =>
      unfold named cell? opcode?
      simp [hop]
    | some op =>
      unfold named cell? opcode?
      simp only [Option.isSome_some, if_true, hop, Option.bind_some]
      by_cases hc : op.addressesCell = true
      · simp [hc, AddressNames.shown]
      · simp [hc]

theorem ofText_eq_named (t : AddressNames) (s : String) (address : Int) :
    ofText t s address = (ofText .empty s address).map (named t) := by
  unfold ofText
  dsimp only
  generalize Word.parse (String.ofList (Text.trim s.toList)) = value
  cases value with
  | error e => rfl
  | ok value => exact congrArg Except.ok (ofValue_eq_named t _ value address)

/-- The names of a table are put on what is decoded without names. -/
theorem ofTexts_eq_named (t : AddressNames) (start : Int) (words : List String) :
    ofTexts t start words = (ofTexts .empty start words).map (List.map (named t)) := by
  induction words generalizing start with
  | nil => rfl
  | cons s r ih =>
    rw [Disassembler.ofTexts_cons, Disassembler.ofTexts_cons, ofText_eq_named, ih]
    generalize ofText .empty s start = first
    generalize ofTexts .empty (start + 1) r = rest
    cases first with
    | error e => rfl
    | ok d => cases rest <;> rfl

theorem named_eq_named_iff {t t' : AddressNames} {d : Decoded} :
    d.named t = d.named t' ↔ ∀ a, d.cell? = some a → t.shown a = t'.shown a := by
  unfold named
  cases hcell : d.cell? with
  | none => simp
  | some a => simp

/-- The line of a decoded word in front of its comment. -/
def line (d : Decoded) : String :=
  let instruction :=
    if d.word.isNone || !d.hasOperand then d.mnemonic
    else s!"{d.mnemonic} {twoDigits d.operand}"
  s!"{twoDigits d.address}: {d.text}  {instruction}"

theorem render_named (d : Decoded) (t : AddressNames) :
    (d.named t).render = commented d.line (d.named t).comment := rfl

end Decoded

namespace Disassembler

/-! ## Requests -/

/-- What a disassembler is asked for: the instructions of an image, its listing or its source. -/
inductive Request
  | instructions (i : Image)
  | listing (i : Image)
  | source (i : Image)

inductive Answer
  | instructions (result : Except DigitLimit (List Decoded))
  | listing (result : Except DigitLimit String)
  | source (notes : List Note) (result : Except DigitLimit String)

namespace Request

def image : Request → Image
  | instructions i => i
  | listing i => i
  | source i => i

/-- Whether the names of the image are learned: a source is given up before if a data word cannot
    be read. -/
def learns : Request → Bool
  | source i => (declarations i 0 i.data).failure.isNone
  | _ => true

/-- The cells whose names an answer shows: those that its instructions address, and in a listing the
    data too. A source shows the names of its own image only. -/
def Shows : Request → Int → Prop
  | instructions i, a => ∃ ds, Decoded.ofTexts .empty i.origin i.code = .ok ds ∧
      ∃ d ∈ ds, d.cell? = some a
  | listing i, a => ∃ ds, Decoded.ofTexts .empty i.origin i.code = .ok ds ∧
      i.checkOrigin = .ok () ∧ ((∃ d ∈ ds, d.cell? = some a) ∨ ∃ k : Nat, k < i.data.length ∧ a = k)
  | source _, _ => False

end Request

def answer (d : Disassembler) : Request → Disassembler × Answer
  | .instructions i => ((d.decodeImage i).1, .instructions (d.decodeImage i).2)
  | .listing i => ((d.listing i).1, .listing (d.listing i).2)
  | .source i => ((d.source i).1, .source (d.source i).2.1 (d.source i).2.2)

/-- The disassembler after requests. -/
def after (d : Disassembler) (rs : List Request) : Disassembler :=
  rs.foldl (fun d r => (d.answer r).1) d

/-- The name of a cell in the first image that has been learned and has one. -/
def learned (rs : List Request) (a : Int) : Option String :=
  (rs.filter (·.learns)).findSome? fun r => r.image.names.get? a

/-! ## What is learned -/

theorem answer_fst (d : Disassembler) (r : Request) :
    (d.answer r).1 = if r.learns then d.learn r.image else d := by
  cases r with
  | instructions i => rfl
  | listing i => rfl
  | source i =>
    unfold answer source Request.learns
    cases hf : (declarations i 0 i.data).failure with
    | some e => simp [hf]
    | none =>
      simp only [hf, Option.isNone_none, if_true]
      generalize hcode : d.decodeImage i = decoded
      obtain ⟨learnt, code⟩ := decoded
      obtain rfl : d.learn i = learnt := congrArg Prod.fst hcode
      cases code <;> rfl

/-- A disassembler knows its own names, and for other cells those of the first image that has one. -/
theorem get?_after (d : Disassembler) (rs : List Request) (a : Int) :
    (d.after rs).names.get? a = (d.names.get? a).or (learned rs a) := by
  induction rs generalizing d with
  | nil => exact (Option.or_none ..).symm
  | cons r rs ih =>
    have hstep : d.after (r :: rs) = (d.answer r).1.after rs := rfl
    rw [hstep, ih, answer_fst]
    unfold learned
    cases hr : r.learns with
    | false => rw [List.filter_cons_of_neg (by simp [hr])]; rfl
    | true =>
      rw [List.filter_cons_of_pos hr, List.findSome?_cons, if_pos rfl]
      unfold learn
      rw [AddressNames.get?_orElse, Option.or_assoc]
      cases r.image.names.get? a <;> rfl

/-! ## What is shown -/

/-- The lines of a listing before they have comments, with the cells whose names they get. -/
def listingRows (i : Image) (ds : List Decoded) : List (String × Option Int) :=
  (s!"// Data (addresses 0-{i.origin - 1})", none) ::
    (i.data.zipIdx.map fun (word, k) => (s!"{twoDigits k}: {word}", some (k : Int))) ++
    (s!"// Code (starting at address {i.origin})", none) :: ds.map fun d => (d.line, d.cell?)

def commentedRow (t : AddressNames) (r : String × Option Int) : String :=
  Decoded.commented r.1 ((r.2.map t.shown).getD "")

theorem listingLines_eq (d : Disassembler) (i : Image) (ds : List Decoded) :
    d.listingLines i (ds.map (Decoded.named d.names)) =
      (listingRows i ds).map (commentedRow d.names) := by
  have hcode : (ds.map (Decoded.named d.names)).map Decoded.render =
      (ds.map fun x => (x.line, x.cell?)).map (commentedRow d.names) := by
    rw [List.map_map, List.map_map]
    exact List.map_congr_left fun x _ => x.render_named d.names
  have hdata : (i.data.zipIdx.map fun (word, k) => d.dataRow k word) =
      (i.data.zipIdx.map fun (word, k) => (s!"{twoDigits k}: {word}", some (k : Int))).map
        (commentedRow d.names) := by
    rw [List.map_map]
    rfl
  unfold listingLines listingRows
  rw [hcode, hdata, List.map_append, List.map_cons, List.map_cons]
  rfl

theorem listing_eq (d : Disassembler) (i : Image) : (d.listing i).2 =
    (Decoded.ofTexts .empty i.origin i.code).bind fun ds => i.checkOrigin.map fun _ =>
      "\n".intercalate ((listingRows i ds).map (commentedRow (d.learn i).names)) := by
  unfold listing decodeImage
  dsimp only
  rw [Decoded.ofTexts_eq_named]
  cases Decoded.ofTexts .empty i.origin i.code with
  | error e => rfl
  | ok ds =>
    show _ = i.checkOrigin.map fun _ =>
      "\n".intercalate ((listingRows i ds).map (commentedRow (d.learn i).names))
    rw [← listingLines_eq]
    cases i.checkOrigin <;> rfl

theorem commentedRow_eq_iff {t t' : AddressNames} {r : String × Option Int} :
    commentedRow t r = commentedRow t' r ↔ ∀ a, r.2 = some a → t.shown a = t'.shown a := by
  unfold commentedRow
  rw [Decoded.commented_inj]
  cases r.2 with
  | none => simp
  | some a => simp

theorem alike_commentedRow {t t' : AddressNames} (ht : t.Plain) (ht' : t'.Plain)
    (r : String × Option Int) :
    Text.AlikeUpToEnd (commentedRow t r).toList (commentedRow t' r).toList := by
  unfold commentedRow
  rw [Decoded.toList_commented, Decoded.toList_commented]
  refine ⟨_, _, _, rfl, rfl, Decoded.newline_notMem_commentTail ?_ _,
    Decoded.newline_notMem_commentTail ?_ _⟩
  · cases r.2 with
    | none => exact List.not_mem_nil
    | some a => exact ht.shown a
  · cases r.2 with
    | none => exact List.not_mem_nil
    | some a => exact ht'.shown a

/-- A listing as a whole tells which names it shows. -/
theorem intercalate_rows_iff {t t' : AddressNames} (ht : t.Plain) (ht' : t'.Plain)
    (rows : List (String × Option Int)) :
    "\n".intercalate (rows.map (commentedRow t)) = "\n".intercalate (rows.map (commentedRow t')) ↔
      rows.map (commentedRow t) = rows.map (commentedRow t') := by
  refine ⟨fun h => ?_, congrArg _⟩
  have htext := congrArg String.toList h
  rw [String.toList_intercalate, String.toList_intercalate] at htext
  refine List.map_injective_iff.2 (fun _ _ => String.toList_injective) (Text.eq_of_intercalate ?_ htext)
  rw [List.forall₂_map_left_iff, List.forall₂_map_left_iff, List.forall₂_map_right_iff,
    List.forall₂_map_right_iff, List.forall₂_same]
  exact fun r _ => alike_commentedRow ht ht' r

/-! ## Answers -/

theorem named_iff {t t' : AddressNames} (ds : List Decoded) :
    ds.map (Decoded.named t) = ds.map (Decoded.named t') ↔
      ∀ a, (∃ d ∈ ds, d.cell? = some a) → t.shown a = t'.shown a := by
  rw [List.map_inj_left]
  simp only [Decoded.named_eq_named_iff]
  exact ⟨fun h a ⟨d, hd, ha⟩ => h d hd a ha, fun h d hd a ha => h a ⟨d, hd, ha⟩⟩

/-- The rows of a listing that get names: those of the data and of instructions that name a cell. -/
theorem exists_listingRow_iff (i : Image) (ds : List Decoded) (a : Int) :
    (∃ r ∈ listingRows i ds, r.2 = some a) ↔
      (∃ d ∈ ds, d.cell? = some a) ∨ ∃ k : Nat, k < i.data.length ∧ a = k := by
  unfold listingRows
  constructor
  · rintro ⟨r, hr, hra⟩
    simp only [List.cons_append, List.mem_cons, List.mem_append, List.mem_map] at hr
    rcases hr with rfl | ⟨⟨word, k⟩, hk, rfl⟩ | rfl | ⟨d, hd, rfl⟩
    · cases hra
    · exact .inr ⟨k, (List.mem_zipIdx' hk).1, (Option.some.inj hra).symm⟩
    · cases hra
    · exact .inl ⟨d, hd, hra⟩
  · rintro (⟨d, hd, hda⟩ | ⟨k, hk, rfl⟩)
    · refine ⟨_, List.mem_append_right _ (List.mem_cons_of_mem _ (List.mem_map_of_mem hd)), hda⟩
    · have hword : (i.data[k], k) ∈ i.data.zipIdx :=
        List.mem_zipIdx_iff_getElem?.2 (List.getElem?_eq_getElem hk)
      exact ⟨_, List.mem_append_left _ (List.mem_cons_of_mem _ (List.mem_map_of_mem hword)), rfl⟩

theorem commentedRows_iff {t t' : AddressNames} (i : Image) (ds : List Decoded) :
    (listingRows i ds).map (commentedRow t) = (listingRows i ds).map (commentedRow t') ↔
      ∀ a, ((∃ d ∈ ds, d.cell? = some a) ∨ ∃ k : Nat, k < i.data.length ∧ a = k) →
        t.shown a = t'.shown a := by
  rw [List.map_inj_left]
  simp only [commentedRow_eq_iff, ← exists_listingRow_iff]
  exact ⟨fun h a ⟨r, hr, hra⟩ => h r hr a hra, fun h r hr a hra => h a ⟨r, hr, hra⟩⟩

theorem decodeImage_snd (d : Disassembler) (i : Image) : (d.decodeImage i).2 =
    (Decoded.ofTexts .empty i.origin i.code).map (List.map (Decoded.named (d.learn i).names)) :=
  Decoded.ofTexts_eq_named ..

/-- Source lines show no names. -/
theorem sourceLines_named (t : AddressNames) (ds : List Decoded) :
    sourceLines (ds.map (Decoded.named t)) = sourceLines ds := by
  induction ds with
  | nil => rfl
  | cons d ds ih =>
    rw [List.map_cons, sourceLines, sourceLines, ih]
    rfl

/-- A source does not depend on the names that were learned. -/
theorem source_snd (d d' : Disassembler) (i : Image) : (d.source i).2 = (d'.source i).2 := by
  unfold source
  dsimp only
  cases (declarations i 0 i.data).failure with
  | some e => rfl
  | none =>
    dsimp only
    rw [decodeImage_snd, decodeImage_snd]
    cases Decoded.ofTexts .empty i.origin i.code with
    | error e => rfl
    | ok ds => simp only [Except.map, sourceLines_named]

theorem listing_snd_eq_iff (d d' : Disassembler) (i : Image) : (d.listing i).2 = (d'.listing i).2 ↔
    ∀ ds, Decoded.ofTexts .empty i.origin i.code = .ok ds → i.checkOrigin = .ok () →
      "\n".intercalate ((listingRows i ds).map (commentedRow (d.learn i).names)) =
        "\n".intercalate ((listingRows i ds).map (commentedRow (d'.learn i).names)) := by
  rw [listing_eq, listing_eq]
  cases Decoded.ofTexts .empty i.origin i.code with
  | error e => simp [Except.bind]
  | ok ds =>
    cases i.checkOrigin with
    | error e => simp [Except.bind, Except.map]
    | ok u => simp [Except.bind, Except.map]

/-- Two disassemblers give the same answer if they have the same names for what it shows. -/
theorem answer_eq_of_shown {d d' : Disassembler} {r : Request} (h : ∀ a, r.Shows a →
    (d.learn r.image).names.shown a = (d'.learn r.image).names.shown a) :
    (d.answer r).2 = (d'.answer r).2 := by
  cases r with
  | instructions i =>
    unfold answer
    dsimp only
    rw [decodeImage_snd, decodeImage_snd]
    cases hds : Decoded.ofTexts .empty i.origin i.code with
    | error e => rfl
    | ok ds =>
      have hnamed := (named_iff ds).2 fun a ha => h a ⟨ds, hds, ha⟩
      exact congrArg (fun xs => Answer.instructions (.ok xs)) hnamed
  | listing i =>
    refine congrArg Answer.listing ((listing_snd_eq_iff d d' i).2 fun ds hds ho => ?_)
    exact congrArg _ ((commentedRows_iff i ds).2 fun a ha => h a ⟨ds, hds, ho, ha⟩)
  | source i => exact congrArg (fun s => Answer.source s.1 s.2) (source_snd d d' i)

/-- If no name breaks a line, the answer tells the names that it shows. -/
theorem shown_eq_of_answer {d d' : Disassembler} {r : Request}
    (hd : (d.learn r.image).names.Plain) (hd' : (d'.learn r.image).names.Plain)
    (h : (d.answer r).2 = (d'.answer r).2) {a : Int} (ha : r.Shows a) :
    (d.learn r.image).names.shown a = (d'.learn r.image).names.shown a := by
  cases r with
  | instructions i =>
    obtain ⟨ds, hds, hcell⟩ := ha
    have hnamed := Answer.instructions.inj h
    rw [decodeImage_snd, decodeImage_snd, hds] at hnamed
    exact (named_iff ds).1 (Except.ok.inj hnamed) a hcell
  | listing i =>
    obtain ⟨ds, hds, ho, hcell⟩ := ha
    have hrows := (listing_snd_eq_iff d d' i).1 (Answer.listing.inj h) ds hds ho
    exact (commentedRows_iff i ds).1 ((intercalate_rows_iff hd hd' _).1 hrows) a hcell
  | source i => exact ha.elim

/-! ## Other images -/

/-- The name of a cell of an image is what it would be without other images: the disassembler has a
    name for it to begin with, or no image before has one, or none but the one of this image. -/
def Kept (d : Disassembler) (rs : List Request) (i : Image) (a : Int) : Prop :=
  (d.names.get? a).isSome ∨ ∀ x, learned rs a = some x → x = (i.names.get? a).getD ""

theorem shown_after_iff (d : Disassembler) (rs : List Request) (i : Image) (a : Int) :
    ((d.after rs).learn i).names.shown a = (d.learn i).names.shown a ↔ Kept d rs i a := by
  unfold AddressNames.shown learn Kept
  rw [AddressNames.get?_orElse, AddressNames.get?_orElse, get?_after]
  cases d.names.get? a with
  | some x => simp
  | none => cases learned rs a <;> simp

theorem plain_after {d : Disassembler} {rs : List Request} (hd : d.names.Plain)
    (hrs : ∀ r ∈ rs, r.image.names.Plain) : (d.after rs).names.Plain := by
  intro a x hx
  rw [get?_after] at hx
  rcases Option.or_eq_some_iff.1 hx with hx | ⟨-, hx⟩
  · exact hd a x hx
  · obtain ⟨r, hr, hrx⟩ := List.exists_of_findSome?_eq_some hx
    exact hrs r (List.mem_of_mem_filter hr) a x hrx

/-- After requests a disassembler knows its own names, and for other cells the name in the first image
    that has one. The next answer is that of a disassembler without these requests if the names of
    the cells that it shows are kept; and if no name breaks a line, it is that answer only then. A source
    shows none of these names, so it is always the same. -/
theorem answer_after (d : Disassembler) (rs : List Request) (r : Request) :
    (∀ a, (d.after rs).names.get? a = (d.names.get? a).or (learned rs a)) ∧
      ((∀ a, r.Shows a → Kept d rs r.image a) → ((d.after rs).answer r).2 = (d.answer r).2) ∧
      (d.names.Plain → (∀ q ∈ r :: rs, q.image.names.Plain) →
        ((d.after rs).answer r).2 = (d.answer r).2 → ∀ a, r.Shows a → Kept d rs r.image a) := by
  refine ⟨get?_after d rs, fun h => ?_, fun hd hplain h a ha => ?_⟩
  · exact answer_eq_of_shown fun a ha => (shown_after_iff d rs r.image a).2 (h a ha)
  · obtain ⟨hr, hrs⟩ := List.forall_mem_cons.1 hplain
    exact (shown_after_iff d rs r.image a).1
      (shown_eq_of_answer ((plain_after hd hrs).orElse hr) (hd.orElse hr) h ha)

/-- Two programs that load their variable, which they name differently. -/
def loadX : Image := ⟨["0005", "2000", "4300"], 1, .ofList [(0, "x")]⟩

def loadN : Image := ⟨["0007", "2000", "4300"], 1, .ofList [(0, "n")]⟩

theorem learned_loadX {a : Int} {x : String} (h : learned [.listing loadX] a = some x) :
    a = 0 ∧ x = "x" := by
  obtain ⟨r, hr, hx⟩ := List.exists_of_findSome?_eq_some h
  obtain rfl := List.mem_singleton.1 hr
  have hentry : (a, x) ∈ loadX.names.entries := AddressNames.get?_eq_some_iff.1 hx
  rw [show loadX.names.entries = [(0, "x")] from rfl] at hentry
  exact Prod.mk.inj (List.mem_singleton.1 hentry)

/-- Behind the listing of the one, the listing of the other is what it would be if the disassembler has
    a name for the variable to begin with, or if both images name it alike. -/
theorem answer_after_kept :
    let named : Disassembler := ⟨.ofList [(0, "total")]⟩
    let alike : Image := ⟨["0007", "2000", "4300"], 1, .ofList [(0, "x")]⟩
    ((named.after [.listing loadX]).answer (.listing loadN)).2 = (named.answer (.listing loadN)).2 ∧
      (((⟨.empty⟩ : Disassembler).after [.listing loadX]).answer (.listing alike)).2 =
        ((⟨.empty⟩ : Disassembler).answer (.listing alike)).2 := by
  intro named alike
  refine ⟨(answer_after named _ _).2.1 fun a _ => ?_, (answer_after _ _ _).2.1 fun a _ => ?_⟩
  · by_cases ha : a = 0
    · exact .inl (by rw [ha]; decide)
    · exact .inr fun x hx => absurd (learned_loadX hx).1 ha
  · refine .inr fun x hx => ?_
    obtain ⟨rfl, rfl⟩ := learned_loadX hx
    rfl

/-- Behind the listing of the one, the listing of the other shows the wrong variable. -/
theorem listing_after_loadX :
    (((⟨.empty⟩ : Disassembler).after [.listing loadX]).answer (.listing loadN)).2 =
        .listing (.ok ("// Data (addresses 0-0)\n00: 0007                 // x\n" ++
          "// Code (starting at address 1)\n01: 2000  LOAD 00        // x\n02: 4300  HALT")) ∧
      ((⟨.empty⟩ : Disassembler).answer (.listing loadN)).2 =
        .listing (.ok ("// Data (addresses 0-0)\n00: 0007                 // n\n" ++
          "// Code (starting at address 1)\n01: 2000  LOAD 00        // n\n02: 4300  HALT")) ∧
      (((⟨.empty⟩ : Disassembler).after [.listing loadX]).answer (.listing loadN)).2 ≠
        ((⟨.empty⟩ : Disassembler).answer (.listing loadN)).2 := by
  refine ⟨congrArg Answer.listing ?_, congrArg Answer.listing ?_, fun h => ?_⟩
  · decide +kernel
  · decide +kernel
  · exact absurd (Answer.listing.inj h) (by decide +kernel)

end Disassembler

end DecimalMachine
