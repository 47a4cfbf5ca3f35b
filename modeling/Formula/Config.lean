import Formula.Error
import Formula.Json.Reader
import Formula.Json.Writer
import Formula.Text.Name
/-!
Settings of an environment.
-/

namespace Formula

/-- The name of a family of representations, such as `normal` or `interval`. -/
abbrev Mode := String

namespace Mode

/-- The mode in which real numbers are doubles. -/
def normal : Mode := "normal"

/-- The mode in which real numbers are ranges. -/
def interval : Mode := "interval"

end Mode

/-- Settings of an environment. -/
structure Config where
  /-- The type of a variable that is given none. -/
  defaultVariableType : String := "real"
  /-- The mode that constants are written in, and that is compiled for if no other is named. -/
  defaultMode : Mode := Mode.normal
  /-- Whether variables are checked on reading if nothing else is asked. -/
  typechecks : Bool := false
  deriving DecidableEq, Repr, Inhabited

namespace Config

/-- The settings as a document. -/
def document (c : Config) : Json :=
  .ofFields [("default_variable_type", .ofString c.defaultVariableType),
    ("default_mode", .ofString c.defaultMode), ("typechecks", .bool c.typechecks)]

/-- Reads a setting; without one, the default stays. -/
def setting {α : Type} (read : Json → Option α) (otherwise : α) : Option Json → Option α
  | none => some otherwise
  | some j => read j

/-- Reads settings by name or, as many as there are, in order. -/
def ofDocument? (j : Json) : Option Config := do
  let initial : Config := {}
  let make (variableType mode checks : Option Json) : Option Config := do
    let defaultVariableType ← setting Json.string? initial.defaultVariableType variableType
    let defaultMode ← setting Json.string? initial.defaultMode mode
    let typechecks ← setting Json.bool? initial.typechecks checks
    some { defaultVariableType, defaultMode, typechecks }
  match j with
  | .array items => if items.length ≤ 3 then make items[0]? items[1]? items[2]? else none
  | j =>
    let fields ← j.fields?
    make (← Json.atMostOnce "default_variable_type" fields)
      (← Json.atMostOnce "default_mode" fields) (← Json.atMostOnce "typechecks" fields)

/-- Why a text holds no settings. -/
inductive Fault where
  /-- It is not a document of settings. -/
  | malformed
  /-- Its settings make no sense. -/
  | invalid (e : Error)

/-- The settings that a text holds. -/
def parse (text : String) : Except Fault Config :=
  match (Json.parse? text).bind ofDocument? with
  | none => .error .malformed
  | some config =>
    if Text.isBlankText config.defaultVariableType then
      .error (.invalid (.generic "default_variable_type must not be empty"))
    else .ok config

end Config

end Formula
