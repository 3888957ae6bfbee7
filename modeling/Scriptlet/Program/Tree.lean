import Scriptlet.Source.Token

/-!
# Program trees

The expressions and statements a program is made of.  A block is a list of statements and a program
is a block; grouping parentheses, optional semicolons, blanks and comments leave no trace in a tree.
-/

namespace Scriptlet

inductive UnaryOp where
  | negate
  | not
  deriving DecidableEq

inductive BinaryOp where
  | add
  | sub
  | mul
  | div
  | rem
  | less
  | greater
  | lessEqual
  | greaterEqual
  | equal
  | notEqual
  | and
  | or
  deriving DecidableEq

namespace UnaryOp

def symbol : UnaryOp → Symbol
  | .negate => .minus
  | .not => .bang

def ofToken? : Token → Option UnaryOp
  | .symbol .minus => some .negate
  | .symbol .bang => some .not
  | _ => none

end UnaryOp

namespace BinaryOp

def symbol : BinaryOp → Symbol
  | .add => .plus
  | .sub => .minus
  | .mul => .star
  | .div => .slash
  | .rem => .percent
  | .less => .less
  | .greater => .greater
  | .lessEqual => .lessEqual
  | .greaterEqual => .greaterEqual
  | .equal => .equalEqual
  | .notEqual => .bangEqual
  | .and => .andAnd
  | .or => .orOr

def text (op : BinaryOp) : String := String.ofList op.symbol.spelling

def ofToken? : Token → Option BinaryOp
  | .symbol .plus => some .add
  | .symbol .minus => some .sub
  | .symbol .star => some .mul
  | .symbol .slash => some .div
  | .symbol .percent => some .rem
  | .symbol .less => some .less
  | .symbol .greater => some .greater
  | .symbol .lessEqual => some .lessEqual
  | .symbol .greaterEqual => some .greaterEqual
  | .symbol .equalEqual => some .equal
  | .symbol .bangEqual => some .notEqual
  | .symbol .andAnd => some .and
  | .symbol .orOr => some .or
  | _ => none

end BinaryOp

inductive Literal where
  | number (n : Binary64)
  | text (s : String)
  | boolean (b : Bool)
  | null
  deriving DecidableEq

mutual

inductive Expr where
  | literal (value : Literal)
  | name (x : String)
  | binary (op : BinaryOp) (left right : Expr)
  | unary (op : UnaryOp) (operand : Expr)
  | call (callee : Expr) (arguments : List Expr)
  | member (object : Expr) (key : String)
  | index (object index : Expr)
  | assign (x : String) (value : Expr)
  | array (elements : List Expr)
  | object (properties : List (String × Expr))
  | function (parameters : List String) (body : List Statement)

inductive Statement where
  | declare (constant : Bool) (x : String) (value : Expr)
  | expression (value : Expr)
  | block (body : List Statement)
  | ifElse (condition : Expr) (consequence : List Statement) (alternative : Alternative)
  | whileLoop (condition : Expr) (body : List Statement)
  | forLoop (start : Option Statement) (condition update : Option Expr) (body : List Statement)
  | function (x : String) (parameters : List String) (body : List Statement)
  | returning (value : Option Expr)

/-- What follows the block of an `if`. -/
inductive Alternative where
  | absent
  | block (body : List Statement)
  | elseIf (condition : Expr) (consequence : List Statement) (alternative : Alternative)

end

abbrev Block := List Statement

end Scriptlet
