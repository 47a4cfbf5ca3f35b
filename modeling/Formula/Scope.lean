import Formula.Directory
import Formula.Value.Document
/-!
Scopes: the values of variables by name.
-/

namespace Formula

/-- The values of variables by name. -/
abbrev Scope := Directory Value

namespace Scope

/-- Reads a scope: an object from names to values, where the last of a repeated name counts. -/
def ofDocument? (j : Json) : Option Scope := do
  let fields ← j.fields?
  let entries ← fields.mapM fun f => (Value.ofDocument? (.text 1) f.2).map (f.1, ·)
  some (Directory.ofList entries)

/-- The scope that a text holds. -/
def parse? (text : String) : Option Scope :=
  (Json.parse? text).bind ofDocument?

end Scope

end Formula
