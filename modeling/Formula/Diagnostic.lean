import Formula.Error
/-!
Diagnostics: findings about a formula, to be shown to its author.
-/

namespace Formula

/-- How grave a finding is. -/
inductive Level where
  | info
  | warning
  | error
  deriving DecidableEq, Repr

/-- A finding about a formula. -/
structure Diagnostic where
  level : Level
  message : String
  suggestions : List String := []
  context : Option String := none
  code : Option String := none
  deriving DecidableEq, Repr

namespace Diagnostic

/-- A grave finding. -/
def error (message : String) : Diagnostic :=
  { level := .error, message }

/-- The finding that an error is. -/
def ofError (e : Error) : Diagnostic :=
  { level := .error, message := e.message, suggestions := e.help.toList, code := some e.code }

/-- Adds the place of a finding. -/
def within (d : Diagnostic) (context : String) : Diagnostic :=
  { d with context := some context }

/-- Whether a finding is grave. -/
def isError (d : Diagnostic) : Bool :=
  d.level == .error

/-- The finding in one line. -/
def text (d : Diagnostic) : String :=
  d.message ++
  (d.code.map fun c => " [" ++ c ++ "]").getD "" ++
  (if d.suggestions.isEmpty then ""
   else " (hints: " ++ "; ".intercalate d.suggestions ++ ")")

/-- The word for a level in a report. -/
def levelWord : Level → String
  | .error => "ERROR"
  | .warning => "WARNING"
  | .info => "INFO"

/-- The lines of a report: a header, then a line for each suggestion. -/
def lines (d : Diagnostic) : List String :=
  ("[" ++ d.context.getD "resolve" ++ "] " ++ levelWord d.level ++ ": " ++ d.message ++
    (d.code.map fun c => " (" ++ c ++ ")").getD "") ::
  d.suggestions.map ("   suggestion: " ++ ·)

end Diagnostic

end Formula
