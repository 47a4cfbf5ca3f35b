import Formula.Program.Basic
/-!
The listing of a program: a line for each binding, and one for the value.
-/

namespace Formula

/-- The text of an operand. -/
def Operand.label : Operand → String
  | slot i => "$" ++ toString i
  | constant i => "c" ++ toString i

/-- The text of a variable that is read. -/
def VariableRead.text (r : VariableRead) : String :=
  (match r.position? with
    | some i => "args[" ++ toString i ++ "]"
    | none => "scope." ++ r.name) ++
  (match r.conversion? with
    | some l => " (cast " ++ l.conversion.text ++ ")"
    | none => "") ++
  (if r.isChecked then " (checked " ++ r.target.name ++ ")" else "")

/-- The text of a function that is called. -/
def callText (index : Nat) (operands : List Operand) : String :=
  "f" ++ toString index ++ "(" ++ ", ".intercalate (operands.map (·.label)) ++ ")"

/-- The text of a step. -/
def Step.text : Step → String
  | read r => r.text
  | convert index c x => callText index [x] ++ "  // " ++ c.text
  | binary op a b => a.label ++ " " ++ op.token ++ " " ++ b.label
  | unary op a => op.token ++ a.label
  | call index _ xs => callText index xs

/-- The lines of a program. -/
def Program.listing (p : Program) : List String :=
  p.bindings.toList.mapIdx (fun i b => (Operand.slot i).label ++ " = " ++ b.step.text) ++
  ["return " ++ p.root.label]

end Formula
