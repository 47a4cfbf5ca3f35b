import Formula.Expr.Basic
/-!
Walks over an expression: all its nodes with their depths, parents before or after their children,
and what is gathered on the way.
-/

namespace Formula.Expr

mutual

/-- The nodes of an expression with their depths, parents first. -/
def preorder (depth : Nat) : Expr → List (Nat × Expr)
  | e@(group _ cs) => (depth, e) :: preorderAll (depth + 1) cs
  | e@(op _ _ cs _) => (depth, e) :: preorderAll (depth + 1) cs
  | e => [(depth, e)]

/-- The nodes of expressions side by side, parents first. -/
def preorderAll (depth : Nat) : List Expr → List (Nat × Expr)
  | [] => []
  | e :: es => preorder depth e ++ preorderAll depth es

end

mutual

/-- The nodes of an expression with their depths, children first. -/
def postorder (depth : Nat) : Expr → List (Nat × Expr)
  | e@(group _ cs) => postorderAll (depth + 1) cs ++ [(depth, e)]
  | e@(op _ _ cs _) => postorderAll (depth + 1) cs ++ [(depth, e)]
  | e => [(depth, e)]

/-- The nodes of expressions side by side, children first. -/
def postorderAll (depth : Nat) : List Expr → List (Nat × Expr)
  | [] => []
  | e :: es => postorder depth e ++ postorderAll depth es

end

mutual

/-- How many nodes an expression has. -/
def nodeCount : Expr → Nat
  | group _ cs => 1 + nodeCountAll cs
  | op _ _ cs _ => 1 + nodeCountAll cs
  | _ => 1

/-- How many nodes expressions have together. -/
def nodeCountAll : List Expr → Nat
  | [] => 0
  | e :: es => nodeCount e + nodeCountAll es

end

mutual

/-- Whether there is no variable in an expression. -/
def isConstant : Expr → Bool
  | group _ cs => areConstant cs
  | var _ _ => false
  | const _ _ _ _ => true
  | op _ _ cs _ => areConstant cs

/-- Whether there is no variable in any of some expressions. -/
def areConstant : List Expr → Bool
  | [] => true
  | e :: es => isConstant e && areConstant es

end

/-- A variable with what is known of its type, if the expression is one. -/
def asVariable : Expr → Option (String × Option MathType)
  | var s name => some (name, s.type?)
  | _ => none

/-- Adds a variable behind the others, unless one of its name is among them. -/
def noteVariable (seen : List (String × Option MathType)) (v : String × Option MathType) :
    List (String × Option MathType) :=
  if seen.any (·.1 == v.1) then seen else seen ++ [v]

/-- The distinct variables of an expression in the order in which they are first met, each with what
is known of its type there. -/
def usedVariables (e : Expr) : List (String × Option MathType) :=
  ((preorder 0 e).filterMap fun n => n.2.asVariable).foldl noteVariable []

end Formula.Expr
