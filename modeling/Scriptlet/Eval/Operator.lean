import Scriptlet.Eval.Fault

/-!
# Operators

What the operators, indexing and member access make of their operands.  None of them touches a
scope or prints.
-/

namespace Scriptlet

namespace BinaryOp

/-- The fault of an operator that is not defined for its operands. -/
def unsupported (op : BinaryOp) (left right : Value) : Fault :=
  .type (.operator op left.kind right.kind)

/-- Operators on two numbers.  A division by either zero is a fault, a remainder by it is not. -/
def onNumbers (op : BinaryOp) (a b : Binary64) : Except Fault Value :=
  match op with
  | .add => .ok (.number (a.add b))
  | .sub => .ok (.number (a.sub b))
  | .mul => .ok (.number (a.mul b))
  | .div => if b.isZero then .error .divisionByZero else .ok (.number (a.div b))
  | .rem => .ok (.number (a.rem b))
  | .less => .ok (.boolean (a.less b))
  | .greater => .ok (.boolean (b.less a))
  | .lessEqual => .ok (.boolean (a.atMost b))
  | .greaterEqual => .ok (.boolean (b.atMost a))
  | .equal => .ok (.boolean (a.equals b))
  | .notEqual => .ok (.boolean (!a.equals b))
  | .and | .or => .error (op.unsupported (.number a) (.number b))

/-- Operators on two texts. -/
def onTexts (op : BinaryOp) (a b : String) : Except Fault Value :=
  match op with
  | .add => .ok (.text (a ++ b))
  | .equal => .ok (.boolean (a == b))
  | .notEqual => .ok (.boolean (a != b))
  | _ => .error (op.unsupported (.text a) (.text b))

/-- Whether two values other than two numbers or two texts are equal: values of different kinds
never are, and of those of one kind only booleans and nulls can be compared. -/
def sameSimple? (left right : Value) : Option Bool :=
  if left.kind ≠ right.kind then some false
  else
    match left, right with
    | .boolean a, .boolean b => some (a == b)
    | .null, .null => some true
    | _, _ => none

/-- Equality and inequality of other values. -/
def onOthers (op : BinaryOp) (left right : Value) : Except Fault Value :=
  match op, sameSimple? left right with
  | .equal, some same => .ok (.boolean same)
  | .notEqual, some same => .ok (.boolean (!same))
  | _, _ => .error (op.unsupported left right)

/-- The value of an operator applied to two values. -/
def apply (op : BinaryOp) (left right : Value) : Except Fault Value :=
  match op with
  | .and => .ok (.boolean (left.truthy && right.truthy))
  | .or => .ok (.boolean (left.truthy || right.truthy))
  | _ =>
    match left, right with
    | .number a, .number b => op.onNumbers a b
    | .text a, .text b => op.onTexts a b
    | _, _ => op.onOthers left right

end BinaryOp

namespace UnaryOp

def apply (op : UnaryOp) (operand : Value) : Except Fault Value :=
  match op, operand with
  | .negate, .number n => .ok (.number n.neg)
  | .negate, v => .error (.type (.negation v.kind))
  | .not, v => .ok (.boolean (!v.truthy))

end UnaryOp

namespace Value

/-- Positions in arrays and texts count from zero, keys of objects are texts; what is not there is
null. -/
def index (target place : Value) : Except Fault Value :=
  match target, place with
  | .array elements, .number n => .ok ((n.toIndex?.bind (elements[·]?)).getD .null)
  | .text s, .number n =>
    .ok (((n.toIndex?.bind (s.toList[·]?)).map (fun c => .text (String.singleton c))).getD .null)
  | .object fields, .text key => .ok ((Fields.get? key fields).getD .null)
  | v, w => .error (.type (.index v.kind w.kind))

def member (target : Value) (key : String) : Except Fault Value :=
  match target with
  | .object fields => .ok ((Fields.get? key fields).getD .null)
  | v => .error (.type (.member v.kind))

end Value

end Scriptlet
