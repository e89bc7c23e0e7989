import DecimalMachine.AddressNames
import DecimalMachine.Text.Quoted
import DecimalMachine.Word
/-
  Machine images: the words of a program from address zero, the address of its first
  instruction and the names of its variables, with their text form.
-/
namespace DecimalMachine

structure Image where
  words : List String
  origin : Int
  names : AddressNames
deriving DecidableEq

/-- Why an image is refused. -/
inductive ImageError
  | tooManyWords (count : Nat) (capacity : Int)
  | notOneWord (line : Nat) (text : String)
  | wordOutOfRange (line : Nat) (word : String)
  | cellOutOfRange (address : Nat) (word : String)
  | number (e : DigitLimit)
deriving DecidableEq

namespace ImageError

def quoted (s : String) : String := String.ofList (Text.quote s.toList)

def message : ImageError → String
  | tooManyWords count capacity => s!"image has {count} words but memory holds {capacity}"
  | notOneWord line text => s!"line {line}: expected one word, got {quoted text}"
  | wordOutOfRange line word => s!"line {line}: word {quoted word} outside -9999..9999"
  | cellOutOfRange address word =>
    let address := String.ofList (Text.zeroPad 2 address)
    s!"address {address}: word {quoted word} outside -9999..9999"
  | number e => e.message

end ImageError

namespace Image

/-- How many words come before the first instruction. An origin below zero counts from the end
    of the words. -/
def cut (i : Image) : Nat := (if i.origin < 0 then i.words.length + i.origin else i.origin).toNat

/-- The words before the first instruction. -/
def data (i : Image) : List String := i.words.take i.cut

/-- The words from the first instruction on. -/
def code (i : Image) : List String := i.words.drop i.cut

theorem data_append_code (i : Image) : i.data ++ i.code = i.words := List.take_append_drop ..

/-- The words as numbers, none for a word that is no numeral. -/
def numbers (i : Image) : Except DigitLimit (List (Option Int)) := i.words.mapM Word.parse

/-! ## Text form -/

def variablesHeader : String := "// Variables"

def instructionsHeader : String := "// Instructions"

/-- A data word, with the name of its address behind it. -/
def dataLine (i : Image) (address : Nat) (word : String) : String :=
  match i.names.get? address with
  | some name => if name.isEmpty then word else s!"{word}  // {name}"
  | none => word

def textLines (i : Image) : List String :=
  s!"{variablesHeader} (addresses 0-{i.origin - 1})" ::
    (i.data.zipIdx.map fun (word, address) => i.dataLine address word) ++
    s!"{instructionsHeader} (starting at address {i.origin})" :: i.code

/-- The image as text, every line ended. -/
def toText (i : Image) : String := "\n".intercalate i.textLines ++ "\n"

/-- Texts name the origin and the address before it; neither may be too long. -/
def checkOrigin (i : Image) : Except DigitLimit Unit := do
  discard <| Text.writeNumeral (i.origin - 1)
  discard <| Text.writeNumeral i.origin

/-- The image as text, if its origin can be written. -/
def writeText (i : Image) : Except DigitLimit String := i.checkOrigin.map fun _ => i.toText

end Image

end DecimalMachine
