import Formula.Expr.Basic
import Formula.Value.Document
/-!
Expressions as JSON documents: objects that name the kind of the node, with the parts of the node as
written. Types and overloads are not part of a document.
-/

namespace Formula.Expr

/-- The kinds of node, by the names they have in documents. -/
def nodeNames : List String :=
  ["group", "variable", "constant", "operator"]

mutual

/-- An expression as a document. -/
def document : Expr → Json
  | group _ cs => .ofFields [("node", .ofString "group"), ("children", .array (documents cs))]
  | var _ name => .ofFields [("node", .ofString "variable"), ("name", .ofString name)]
  | const _ value typeName text =>
    .ofFields ([("node", .ofString "constant"), ("value", value.document),
        ("type", .ofString typeName)] ++
      (text.map fun t => ("text", Json.ofString t)).toList)
  | op _ name cs _ =>
    .ofFields [("node", .ofString "operator"), ("name", .ofString name),
      ("children", .array (documents cs))]

/-- Each expression as a document. -/
def documents : List Expr → List Json
  | [] => []
  | e :: es => document e :: documents es

end

/-- The name of the kind of a node, which may be given by its place among the kinds. -/
def nodeNameOf? : Json → Option String
  | .string (some name) => if nodeNames.contains name then some name else none
  | .integer n => if 0 ≤ n then nodeNames[n.toNat]? else none
  | _ => none

/-- Reads the text that a constant is shown by, if there is one. -/
def shownTextOf? : Option Json → Option (Option String)
  | none => some none
  | some .null => some none
  | some (.string (some t)) => some (some t)
  | some _ => none

/-- Reads an expression whose nodes lie within `depth` of each other. -/
def ofDocument? : Nat → Json → Option Expr
  | 0, _ => none
  | depth + 1, j => do
    let fields ← j.fields?
    let children : Option (List Expr) := do
      (← (← Json.once? "children" fields).array?).mapM (ofDocument? depth)
    let name ← nodeNameOf? (← Json.once? "node" fields)
    match name with
    | "group" => some (group .pending (← children))
    | "variable" => some (var .pending (← (← Json.once? "name" fields).string?))
    | "constant" =>
      let value ← Value.ofDocument? .held (← Json.once? "value" fields)
      let typeName ← (← Json.once? "type" fields).string?
      let text ← shownTextOf? (← Json.atMostOnce "text" fields)
      some (const .pending value typeName text)
    | _ =>
      let opName ← (← Json.once? "name" fields).string?
      some (op .pending opName (← children) none)

/-- The text of an expression as a document. -/
def json (e : Expr) : String :=
  e.document.render

/-- The expression that a text holds as a document. -/
def parse? (text : String) : Option Expr := do
  let j ← Json.parse? text
  if j.isSound Json.depthLimit then ofDocument? Json.depthLimit j else none

end Formula.Expr
