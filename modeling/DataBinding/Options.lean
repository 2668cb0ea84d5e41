import DataBinding.Text.Characters
/-!
# Options

How generated entry points recognise their caller, and whether generated units are checked. Both
can be set by variables; a variable that is not set leaves the default.
-/

namespace DataBinding

/-- How an entry point recognises its caller. -/
inductive Strategy where
  /-- By the captured text of every argument. -/
  | text
  /-- By the caller's line and the end of its file path. -/
  | positional
deriving DecidableEq, Inhabited

def Strategy.word : Strategy → String
  | text => "text"
  | positional => "positional"

structure Options where
  strategy : Strategy
  validate : Bool
deriving DecidableEq

/-- A variable holds a value outside the expected ones. -/
structure OptionsError where
  variableName : String
  value : String
  expected : String
deriving DecidableEq

def OptionsError.message (e : OptionsError) : String :=
  s!"unknown value `{e.value}` for {e.variableName} (expected one of: {e.expected})"

namespace Options

def default : Options := ⟨.text, false⟩

def strategyVariable : String := "TETHER_DISPATCH"
def validateVariable : String := "TETHER_VALIDATE"

/-- Blanks around the word and the case of ASCII letters do not count. -/
def readStrategy (value : String) : Except OptionsError Strategy :=
  let word := (Text.trim value).map Char.toLower
  if word = "text" ∨ word = "argument-text" then .ok .text
  else if word = "positional" ∨ word = "line" then .ok .positional
  else .error ⟨strategyVariable, value, "text, positional"⟩

/-- Blanks around the word do not count, its case does. -/
def readValidate (value : String) : Except OptionsError Bool :=
  let word := Text.trim value
  if word = "1" ∨ word = "true" then .ok true
  else if word = "0" ∨ word = "false" then .ok false
  else .error ⟨validateVariable, value, "0, 1"⟩

/-- The defaults, replaced by what the variables hold. -/
def read (lookup : String → Option String) : Except OptionsError Options := do
  let strategy ← (lookup strategyVariable).elim (pure default.strategy) readStrategy
  let validate ← (lookup validateVariable).elim (pure default.validate) readValidate
  return ⟨strategy, validate⟩

end Options

end DataBinding
