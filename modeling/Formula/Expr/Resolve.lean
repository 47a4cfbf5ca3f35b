import Formula.Diagnostic
import Formula.Environment
import Formula.Expr.Basic
/-!
Resolving the types of an expression, from the leaves up. A variable has the type it is declared
with or the default one, a constant the type it names, a group that of its child and an operator the
result type of the overload chosen for its operands. A node that fails on its own account leaves one
finding; the nodes above it stay without a type and leave none.
-/

namespace Formula

/-- The types of variables, by name. -/
abbrev VariableTypes := Directory String

/-- Why a node has no type. -/
inductive Finding where
  /-- A registry refused what the node asks for. -/
  | refused (error : Error) (context : Option String)
  /-- The node itself is no good. -/
  | malformed (message : String)
  deriving DecidableEq, Repr

namespace Finding

/-- The error behind a finding, if a registry raised one. -/
def error? : Finding → Option Error
  | refused e _ => some e
  | malformed _ => none

/-- The finding as it is shown. -/
def diagnostic : Finding → Diagnostic
  | refused e none => .ofError e
  | refused e (some context) => (Diagnostic.ofError e).within context
  | malformed message => .error message

end Finding

namespace Expr

/-- The type of a variable. -/
def resolveVariable (env : Environment) (vars : VariableTypes) (name : String) :
    TypeSlot × List Finding :=
  match env.types.mathType ((vars.get? name).getD env.config.defaultVariableType) with
  | .ok t => (.resolved t, [])
  | .error e => (.unresolved, [.refused e (some ("variable `" ++ name ++ "`"))])

/-- Why a constant does not belong to a type, if the mode that constants are written in represents
the type. -/
def constantComplaint (env : Environment) (t : MathType) (v : Value) : Option String :=
  (t.representation? env.config.defaultMode).bind (·.complaint v)

/-- The type of a constant. -/
def resolveConstant (env : Environment) (v : Value) (typeName : String) :
    TypeSlot × List Finding :=
  match env.types.mathType typeName with
  | .error e => (.unresolved, [.refused e (some ("constant " ++ v.text))])
  | .ok t =>
    match constantComplaint env t v with
    | none => (.resolved t, [])
    | some complaint =>
      (.unresolved, [.malformed ("constant " ++ v.text ++ " is not a valid " ++ typeName ++ ": " ++
        complaint)])

/-- The type of a group with some children. -/
def resolveGroup (children : List Expr) : TypeSlot × List Finding :=
  match children with
  | [c] => (c.slot, [])
  | cs => (.unresolved,
      [.malformed ("a group must have exactly one child, found " ++ toString cs.length)])

/-- The overload and type of an operator on some operands; nothing is found wrong with it if an
operand has no type. -/
def resolveOperator (env : Environment) (name : String) (operands : List Expr) :
    TypeSlot × Option Resolution × List Finding :=
  match operands.mapM type? with
  | none => (.unresolved, none, [])
  | some types =>
    match env.resolveOperator name types with
    | .ok r => (.resolved r.overload.result, some r, [])
    | .error e => (.unresolved, none, [.refused e none])

mutual

/-- Resolves an expression: the expression with types, and what was found, children first. -/
def resolve (env : Environment) (vars : VariableTypes) : Expr → Expr × List Finding
  | group _ cs =>
    let (cs, below) := resolveAll env vars cs
    let (slot, found) := resolveGroup cs
    (group slot cs, below ++ found)
  | var _ name =>
    let (slot, found) := resolveVariable env vars name
    (var slot name, found)
  | const _ value typeName text =>
    let (slot, found) := resolveConstant env value typeName
    (const slot value typeName text, found)
  | op _ name cs _ =>
    let (cs, below) := resolveAll env vars cs
    let (slot, resolution, found) := resolveOperator env name cs
    (op slot name cs resolution, below ++ found)

/-- Resolves expressions side by side, from the left. -/
def resolveAll (env : Environment) (vars : VariableTypes) : List Expr → List Expr × List Finding
  | [] => ([], [])
  | e :: es =>
    let (e, found) := resolve env vars e
    let (es, more) := resolveAll env vars es
    (e :: es, found ++ more)

end

end Expr

/-- What resolving an expression found, in order. -/
structure Outcome where
  findings : List Finding

namespace Outcome

/-- The findings as they are shown. -/
def diagnostics (o : Outcome) : List Diagnostic :=
  o.findings.map (·.diagnostic)

/-- The errors that registries raised. -/
def errors (o : Outcome) : List Error :=
  o.findings.filterMap (·.error?)

/-- Whether anything is wrong. -/
def hasErrors (o : Outcome) : Bool :=
  o.diagnostics.any (·.isError)

/-- Success, or one error for all: the first that a registry raised, or else the first finding. -/
def result (o : Outcome) : Except Error Unit :=
  match o.errors with
  | e :: _ => .error e
  | [] =>
    match o.diagnostics.find? (·.isError) with
    | some d => .error (.generic d.text)
    | none => .ok ()

end Outcome

/-- Resolves an expression in an environment, for variables of some types. -/
def Environment.resolve (env : Environment) (vars : VariableTypes) (e : Expr) : Expr × Outcome :=
  let (e, findings) := Expr.resolve env vars e
  (e, { findings })

end Formula
