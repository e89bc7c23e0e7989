import DecimalMachine.Text.Printable
/-
  Quoted text: a text between two quotation marks, with every character that cannot be shown
  written as an escape.
-/
namespace DecimalMachine.Text

/-- The mark around a text: `'`, unless the text has that one and not `"`. -/
def quoteMark (s : List Char) : Char :=
  if s.contains '\x27' && !s.contains '\x22' then '\x22' else '\x27'

/-- The number `n` in base sixteen, in at least `width` digits. -/
def hex (width n : Nat) : List Char := (Nat.toDigits 16 n).leftpad width '0'

/-- One character between marks `q`. -/
def quoteChar (q c : Char) : List Char :=
  if c = q || c = '\\' then ['\\', c]
  else if c = '\n' then ['\\', 'n']
  else if c = '\r' then ['\\', 'r']
  else if c = '\t' then ['\\', 't']
  else if isPrintable c then [c]
  else if c.toNat < 0x100 then '\\' :: 'x' :: hex 2 c.toNat
  else if c.toNat < 0x10000 then '\\' :: 'u' :: hex 4 c.toNat
  else '\\' :: 'U' :: hex 8 c.toNat

def quote (s : List Char) : List Char :=
  let q := quoteMark s
  q :: s.flatMap (quoteChar q) ++ [q]

example : quote ['a', '\n', '\\', '\x7f'] =
    ['\x27', 'a', '\\', 'n', '\\', '\\', '\\', 'x', '7', 'f', '\x27'] := by
  decide

end DecimalMachine.Text
