/-
  Escape sequences of terminals, and texts without them.
-/
namespace DecimalMachine.Text

/-- The parameters of a sequence. -/
def isEscapeParameter (c : Char) : Bool := c.isDigit || c == ';' || c == '?'

/-- Removes every sequence that consists of an escape, a bracket, parameters and a letter. While
    `skip` is positive a sequence is passed over. -/
def stripEscapesFrom : Nat → List Char → List Char
  | _, [] => []
  | skip + 1, _ :: r => stripEscapesFrom skip r
  | 0, c :: r =>
    match c, r with
    | '\x1b', '[' :: s =>
      let rest := s.dropWhile isEscapeParameter
      match rest with
      | d :: _ =>
        if d.isAlpha then stripEscapesFrom (s.length - rest.length + 2) r
        else c :: stripEscapesFrom 0 r
      | [] => c :: stripEscapesFrom 0 r
    | _, _ => c :: stripEscapesFrom 0 r

def stripEscapes (s : String) : String := String.ofList (stripEscapesFrom 0 s.toList)

example : stripEscapesFrom 0 ['a', '\x1b', '[', '3', '1', 'm', 'b'] = ['a', 'b'] := by decide

end DecimalMachine.Text
