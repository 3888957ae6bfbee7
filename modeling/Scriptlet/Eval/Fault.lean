import Scriptlet.Value.Basic

/-!
# Faults

What can go wrong while a program runs, and the message for it.
-/

namespace Scriptlet

/-- An operation applied to values of a kind it is not defined for. -/
inductive TypeFault where
  | operator (op : BinaryOp) (left right : Kind)
  | negation (operand : Kind)
  | index (target place : Kind)
  | member (target : Kind)
  | call (callee : Kind)
  | length (argument : Kind)
  | pushTarget
  | arrayArgument (b : Builtin)
  deriving DecidableEq

namespace TypeFault

def message : TypeFault → String
  | .operator op left right =>
    "Unsupported operator " ++ op.text ++ " for types " ++ left.name ++ " and " ++ right.name
  | .negation k => "Cannot negate " ++ k.name
  | .index target place => "Cannot index " ++ target.name ++ " with " ++ place.name
  | .member k => "Cannot access property on " ++ k.name
  | .call k => k.name ++ " is not a function"
  | .length k => "len() not supported for type: " ++ k.name
  | .pushTarget => "push() requires an array as first argument"
  | .arrayArgument b => b.name ++ "() requires an array"

end TypeFault

/-- Why a program stopped. -/
inductive Fault where
  | undefinedVariable (x : String)
  | duplicateDefinition (x : String)
  | constantReassignment (x : String)
  | type (cause : TypeFault)
  | arity (expected found : Nat)
  | divisionByZero
  deriving DecidableEq

namespace Fault

def message : Fault → String
  | .undefinedVariable x => "Undefined variable: " ++ x
  | .duplicateDefinition x => "Variable already defined: " ++ x
  | .constantReassignment x => "Cannot reassign constant: " ++ x
  | .type cause => cause.message
  | .arity expected found =>
    "Expected " ++ toString expected ++ " arguments, got " ++ toString found
  | .divisionByZero => "Division by zero"

end Fault

end Scriptlet
