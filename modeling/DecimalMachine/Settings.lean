import DecimalMachine.Text.Numeral
/-
  Settings: the size of memory, the limit of runs, how undefined symbols are taken and the
  prompt. They come from an environment, a set of named values, where that has them.
-/
namespace DecimalMachine

structure Settings where
  memorySize : Int
  maxCycles : Option Int
  strictSymbols : Bool
  prompt : String
deriving DecidableEq

/-- Named values. -/
abbrev Environment := List (String × String)

namespace Settings

def standard : Settings := ⟨100, none, false, "Enter value: "⟩

/-- The value of a name; an empty one counts as none. -/
def valueOf (env : Environment) (name : String) : Option String :=
  (env.lookup name).filter fun s => !s.isEmpty

def readInt (s : String) : Option Int := Text.readLooseNumeral s.toList

/-- The texts that turn a setting on, in any case and with blanks around them. -/
def isOn (s : String) : Bool :=
  let text := String.ofList ((Text.trim s.toList).map Char.toLower)
  ["1", "true", "yes", "on"].contains text

/-- The settings of an environment. A value that is no number, or a size that is not positive,
    leaves its setting as it is. -/
def ofEnvironment (env : Environment) : Settings where
  memorySize :=
    (((valueOf env "SML_MEMORY_SIZE").bind readInt).filter (0 < ·)).getD standard.memorySize
  maxCycles := (valueOf env "SML_MAX_CYCLES").bind readInt
  strictSymbols := (valueOf env "SML_STRICT_SYMBOLS").any isOn
  prompt := (valueOf env "SML_PROMPT").getD standard.prompt

/-- Other values for some of the settings. -/
structure Overrides where
  memorySize : Option Int
  maxCycles : Option Int
  strictSymbols : Option Bool
  prompt : Option String

def override (s : Settings) (o : Overrides) : Settings where
  memorySize := o.memorySize.getD s.memorySize
  maxCycles := o.maxCycles <|> s.maxCycles
  strictSymbols := o.strictSymbols.getD s.strictSymbols
  prompt := o.prompt.getD s.prompt

end Settings

/-- The settings in force: those chosen last, or those of the environment as it was when they
    were first asked for. -/
structure Defaults where
  environment : Environment
  chosen : Option Settings

namespace Defaults

def current (d : Defaults) : Settings := d.chosen.getD (.ofEnvironment d.environment)

/-- Asks for the settings, which stay in force from then on. -/
def ask (d : Defaults) : Settings × Defaults := (d.current, { d with chosen := some d.current })

end Defaults

end DecimalMachine
