/-
  Notes: remarks and warnings that the parts of the library leave for whoever keeps a log.
-/
namespace DecimalMachine

inductive Level
  | debug
  | warning
deriving DecidableEq

def Level.name : Level → String
  | .debug => "DEBUG"
  | .warning => "WARNING"

structure Note where
  level : Level
  text : String
deriving DecidableEq

def Note.debug (text : String) : Note := ⟨.debug, text⟩

def Note.warning (text : String) : Note := ⟨.warning, text⟩

/-- The note with its level in front. -/
def Note.render (n : Note) : String := s!"{n.level.name}: {n.text}"

end DecimalMachine
