/-!
What can go wrong between a formula and its value, and the words for it.
-/

namespace Formula

/-- Why an operation failed. -/
inductive Error where
  /-- No type has this name. -/
  | unknownType (name : String) (help : Option String)
  /-- No operator has this name. -/
  | unknownOperator (name : String) (help : Option String)
  /-- No overload of the operator takes arguments of these types. -/
  | noViableOverload (name : String) (arguments : List String) (help : Option String)
  /-- No conversion leads from one type to another. -/
  | noCast (source target : String)
  /-- A type, evaluator or overload cannot be built. -/
  | construction (reason : String)
  /-- A registration contradicts an earlier one. -/
  | registration (reason : String)
  /-- An expression has no type yet, or can have none. -/
  | unresolved (expression : String)
  /-- Something has no representation in a mode. -/
  | noEvaluator (subject mode : String)
  /-- A variable has no value. -/
  | missingVariable (name : String)
  /-- A variable has a value of the wrong type. -/
  | wrongType (name reason : String)
  /-- The number of positional arguments is wrong. -/
  | argumentCount (expected found : Nat)
  /-- A compile option makes no sense. -/
  | invalidOption (reason : String)
  /-- Anything else. -/
  | generic (message : String)
  deriving DecidableEq, Repr, Inhabited

namespace Error

/-- The message of an error. -/
def message : Error → String
  | unknownType name _ => "unknown type `" ++ name ++ "`"
  | unknownOperator name _ => "unknown operator `" ++ name ++ "`"
  | noViableOverload name arguments _ =>
    "no viable overload for " ++ name ++ "(" ++ ", ".intercalate arguments ++ ")"
  | noCast source target =>
    "no cast available from `" ++ source ++ "` to `" ++ target ++ "`"
  | construction reason => "construction error: " ++ reason
  | registration reason => "registration conflict: " ++ reason
  | unresolved expression => "cannot compile unresolved node `" ++ expression ++ "`"
  | noEvaluator subject mode => "no evaluator for mode `" ++ mode ++ "`: " ++ subject
  | missingVariable name => "variable `" ++ name ++ "` was not found in the scope"
  | wrongType name reason => "variable `" ++ name ++ "` has the wrong type: " ++ reason
  | argumentCount expected found =>
    "expected " ++ toString expected ++ " positional arguments, found " ++ toString found
  | invalidOption reason => "invalid option: " ++ reason
  | generic message => message

/-- What the reader of an error may do about it. -/
def help : Error → Option String
  | unknownType _ help => help
  | unknownOperator _ help => help
  | noViableOverload _ _ help => help
  | unresolved _ => some "resolve the tree and check its outcome before compiling"
  | _ => none

/-- The code of an error. -/
def code : Error → String
  | unknownType .. => "mx::unknown_type"
  | unknownOperator .. => "mx::unknown_operator"
  | noViableOverload .. => "mx::no_viable_overload"
  | noCast .. => "mx::no_cast"
  | construction .. => "mx::construction"
  | registration .. => "mx::registration"
  | unresolved .. => "mx::unresolved_type"
  | noEvaluator .. => "mx::no_evaluator_for_mode"
  | missingVariable .. => "mx::missing_variable"
  | wrongType .. => "mx::type_check"
  | argumentCount .. => "mx::argument_count"
  | invalidOption .. => "mx::invalid_option"
  | generic .. => "mx::generic"

/-- Whether the error lies in what a user wrote or supplied, and not in how the program was set
up. -/
def isRecoverable : Error → Bool
  | unknownType .. | unknownOperator .. | noViableOverload .. | noCast .. | noEvaluator ..
  | missingVariable .. | wrongType .. | argumentCount .. => true
  | _ => false

end Error

end Formula
