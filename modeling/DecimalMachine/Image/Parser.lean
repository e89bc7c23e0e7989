import DecimalMachine.Image
import DecimalMachine.Note
import DecimalMachine.Text.Lines
/-
  Reading an image from its text form. Blank lines and comments are skipped; the header of the
  instructions marks the origin, which is zero without one; every other line holds one word,
  and before the origin a comment behind a word names its address.
-/
namespace DecimalMachine.Image

/-- What a line of the text form says. -/
inductive Entry
  | nothing
  | header
  | word (text comment : List Char)

/-- The text before the first `//` and the text behind it. -/
def splitComment : List Char → List Char × List Char
  | '/' :: '/' :: r => ([], r)
  | c :: r => let (word, comment) := splitComment r; (c :: word, comment)
  | [] => ([], [])

def readEntry (line : List Char) : Entry :=
  let s := Text.trim line
  if instructionsHeader.toList.isPrefixOf s then .header
  else
    let (word, comment) := splitComment s
    let word := Text.trim word
    if word.isEmpty then .nothing else .word word (Text.trim comment)

/-- The result of reading, with the notes made on the way. -/
structure Parsed where
  notes : Array Note
  result : Except ImageError Image

/-- What has been read so far; the origin is none until its header. -/
structure Reading where
  words : Array String
  origin : Option Nat
  names : AddressNames
  notes : Array Note

namespace Reading

def start : Reading := ⟨#[], none, .empty, #[]⟩

def note (r : Reading) (n : Note) : Reading := { r with notes := r.notes.push n }

/-- An image that cannot be read, and the notes made up to there. -/
structure Refusal where
  error : ImageError
  notes : Array Note

def refuse (r : Reading) (e : ImageError) : Except Refusal Reading := .error ⟨e, r.notes⟩

/-- Takes in the word of line `number`, with the comment behind it. -/
def takeWord (r : Reading) (number : Nat) (text comment : List Char) : Except Refusal Reading :=
  let word := String.ofList text
  if (Text.words text).length ≠ 1 then r.refuse (.notOneWord number word)
  else
    match Word.parse word with
    | .error e => r.refuse (.number e)
    | .ok value =>
      if value.any fun n => !Word.inRange n then r.refuse (.wordOutOfRange number word)
      else
        let names :=
          if r.origin.isNone && !comment.isEmpty then
            r.names.put r.words.size (String.ofList comment)
          else r.names
        .ok { r with words := r.words.push word, names }

/-- Takes in line `number`. -/
def takeLine (r : Reading) (number : Nat) (line : List Char) : Except Refusal Reading :=
  match readEntry line with
  | .nothing => .ok r
  | .header =>
    match r.origin with
    | some _ => .ok (r.note (.warning s!"line {number}: duplicate instructions header ignored"))
    | none => .ok { r with origin := some r.words.size }
  | .word text comment => r.takeWord number text comment

/-- Takes in lines, the first of them line `number`, up to one that is wrong. -/
def takeLines (r : Reading) (number : Nat) : List (List Char) → Except Refusal Reading
  | [] => .ok r
  | line :: rest =>
    match r.takeLine number line with
    | .ok r => r.takeLines (number + 1) rest
    | .error e => .error e

/-- The image, unless it has more words than `capacity`. -/
def finish (r : Reading) (capacity : Option Int) : Parsed :=
  match capacity.filter fun c => c < (r.words.size : Int) with
  | some c => ⟨r.notes, .error (.tooManyWords r.words.size c)⟩
  | none =>
    let r :=
      if r.origin.isNone then r.note (.debug "No instructions header found, assuming origin 0")
      else r
    let image : Image := ⟨r.words.toList, r.origin.getD 0, r.names⟩
    let summary := s!"Parsed {r.words.size} words, instruction origin {image.origin}"
    ⟨(r.note (.debug summary)).notes, .ok image⟩

end Reading

/-- Reads an image of at most `capacity` words. -/
def parse (text : String) (capacity : Option Int) : Parsed :=
  match Reading.start.takeLines 1 (Text.lines text.toList) with
  | .error e => ⟨e.notes, .error e.error⟩
  | .ok r => r.finish capacity

end DecimalMachine.Image
