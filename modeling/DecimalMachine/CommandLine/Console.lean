import DecimalMachine.Text.Blank
import DecimalMachine.Text.Lines
/-
  The console: a program that reads asks with a prompt, and again after an empty line. The reply
  is the first word of the line, or the line itself if it is blank.
-/
namespace DecimalMachine.CommandLine

/-- A line typed in reply, after some empty ones. -/
structure Reply where
  empties : Nat
  line : String

/-- The prompt, the replies to come, and the empty lines behind the last of them. -/
structure Console where
  prompt : String
  replies : List Reply
  trailing : Nat

/-- The token that a reply gives. -/
def Reply.token (r : Reply) : String :=
  match Text.words r.line.toList with
  | w :: _ => String.ofList w
  | [] => r.line

namespace Console

/-- The lines of a typed text; a last one that is not ended counts if it is not empty. -/
def typedLines (typed : String) : List String :=
  let parts := (Text.normalizeBreaks typed.toList).splitOnP (· == '\n')
  let parts := if parts.getLast? = some [] then parts.dropLast else parts
  parts.map String.ofList

/-- Replies from lines, the first after `empties` empty ones. -/
def gather (empties : Nat) : List String → List Reply × Nat
  | [] => ([], empties)
  | l :: ls =>
    if l.isEmpty then gather (empties + 1) ls
    else
      let (replies, trailing) := gather 0 ls
      (⟨empties, l⟩ :: replies, trailing)

def new (prompt typed : String) : Console :=
  let (replies, trailing) := gather 0 (typedLines typed)
  ⟨prompt, replies, trailing⟩

def tokens (c : Console) : List String := c.replies.map Reply.token

end Console

end DecimalMachine.CommandLine
