import Formula.Expr.Basic
/-!
The text of an expression. Signs stand between two operands or before one, with as few parentheses
as their precedences allow; any other operator is written as a call.
-/

namespace Formula

/-- How strongly a sign between two operands binds them; nothing for a name. -/
def precedence? (name : String) : Option Nat :=
  match name with
  | "||" => some 1
  | "&&" => some 2
  | "==" | "!=" | "<" | "<=" | ">" | ">=" => some 3
  | "+" | "-" => some 4
  | "*" | "/" => some 5
  | "^" => some 7
  | _ => none

/-- How strongly a sign before its operand binds it. -/
def signPrecedence : Nat := 6

/-- More than any precedence: of what needs no parentheses anywhere. -/
def atomPrecedence : Nat := 255

/-- The least precedences of the operands of a sign that may stand without parentheses. The power
groups to the right, all others to the left. -/
def operandPrecedences (name : String) (p : Nat) : Nat × Nat :=
  if name = "^" then (p + 1, p) else (p, p + 1)

namespace Expr

/-- How strongly the outermost sign of an expression binds. -/
def textPrecedence : Expr → Nat
  | op _ name [_, _] _ => (precedence? name).getD atomPrecedence
  | op _ name [_] _ => if (precedence? name).isSome then signPrecedence else atomPrecedence
  | _ => atomPrecedence

/-- Puts parentheses around a text. -/
def parenthesized (text : String) : String :=
  "(" ++ text ++ ")"

/-- The text of an operand, in parentheses if its precedence is below `least`. -/
def operandText (least : Nat) (e : Expr) (text : String) : String :=
  if e.textPrecedence < least then parenthesized text else text

mutual

/-- The text of an expression. -/
def text : Expr → String
  | group _ cs => parenthesized (", ".intercalate (texts cs))
  | var _ name => name
  | const _ value _ shown => shown.getD value.text
  | op _ name cs _ =>
    match precedence? name, cs, texts cs with
    | some p, [a, b], [s, t] =>
      let (left, right) := operandPrecedences name p
      operandText left a s ++ " " ++ name ++ " " ++ operandText right b t
    | some _, [a], [s] => name ++ operandText signPrecedence a s
    | _, _, ts => name ++ parenthesized (", ".intercalate ts)

/-- The text of each expression. -/
def texts : List Expr → List String
  | [] => []
  | e :: es => text e :: texts es

end

end Expr

end Formula
