import Scriptlet.Program.Tree

/-!
# Where a phrase stands

While a program is read, the phrase at hand stands in a **context**: the parts of the tree around it
that are already known, from the inside out.  There is a kind of context for each kind of phrase, so
a context can only be filled with a phrase that belongs there.  The outermost layer is a `goal`: the
phrase is what was asked for.

* `Level`: how tightly the parts of an expression hold together, from assignment to primary
  expressions.  `ExprContext.level` is the loosest level a context takes without parentheses.
* A list under construction (arguments, statements of a block, ...) is kept last item first.
-/

namespace Scriptlet

/-- How tightly an expression holds together; a greater level binds tighter. -/
abbrev Level := Nat

namespace Level

abbrev assignment : Level := 0

abbrev disjunction : Level := 1

abbrev conjunction : Level := 2

abbrev equality : Level := 3

abbrev relational : Level := 4

abbrev additive : Level := 5

abbrev multiplicative : Level := 6

abbrev unary : Level := 7

abbrev suffix : Level := 8

abbrev primary : Level := 9

end Level

/-- The level of an expression made by the operator; its right operand is one level tighter. -/
def BinaryOp.level : BinaryOp → Level
  | .or => Level.disjunction
  | .and => Level.conjunction
  | .equal | .notEqual => Level.equality
  | .less | .greater | .lessEqual | .greaterEqual => Level.relational
  | .add | .sub => Level.additive
  | .mul | .div | .rem => Level.multiplicative

mutual

/-- Where an expression stands. -/
inductive ExprContext where
  | goal (level : Level)
  | unary (op : UnaryOp) (outer : ExprContext)
  | binary (left : Expr) (op : BinaryOp) (outer : ExprContext)
  | assign (x : String) (outer : ExprContext)
  | group (outer : ExprContext)
  | argument (callee : Expr) (before : List Expr) (outer : ExprContext)
  | index (object : Expr) (outer : ExprContext)
  | element (before : List Expr) (outer : ExprContext)
  | property (before : List (String × Expr)) (key : String) (outer : ExprContext)
  | declaration (constant : Bool) (x : String) (outer : StatementContext)
  | expression (outer : StatementContext)
  | returning (outer : StatementContext)
  | ifCondition (outer : ConditionalContext)
  | whileCondition (outer : StatementContext)
  | forDeclaration (x : String) (outer : StatementContext)
  | forStart (outer : StatementContext)
  | forCondition (start : Option Statement) (outer : StatementContext)
  | forUpdate (start : Option Statement) (condition : Option Expr) (outer : StatementContext)

/-- Where a statement stands. -/
inductive StatementContext where
  | goal
  | item (before : List Statement) (outer : BlockContext)

/-- Where a block stands. -/
inductive BlockContext where
  | goal
  | consequence (condition : Expr) (outer : ConditionalContext)
  | alternative (condition : Expr) (consequence : Block) (outer : ConditionalContext)
  | whileBody (condition : Expr) (outer : StatementContext)
  | forBody (start : Option Statement) (condition update : Option Expr) (outer : StatementContext)
  | function (x : String) (parameters : List String) (outer : StatementContext)
  | lambda (parameters : List String) (outer : ExprContext)

/-- Where an `if` with all its branches stands. -/
inductive ConditionalContext where
  | goal
  | statement (outer : StatementContext)
  | elseIf (condition : Expr) (consequence : Block) (outer : ConditionalContext)

end

/-- The loosest level an expression may have in a context. -/
def ExprContext.level : ExprContext → Level
  | .goal level => level
  | .unary .. => Level.unary
  | .binary _ op _ => op.level + 1
  | _ => Level.assignment

/-- Where a parameter list stands. -/
inductive FunctionContext where
  | declaration (x : String) (outer : StatementContext)
  | lambda (outer : ExprContext)

/-- Where the body stands once the parameters are known. -/
def FunctionContext.body (parameters : List String) : FunctionContext → BlockContext
  | .declaration x k => .function x parameters k
  | .lambda k => .lambda parameters k

/-- Where the name of a declaration stands. -/
inductive DeclarationContext where
  | statement (constant : Bool) (outer : StatementContext)
  | forStart (outer : StatementContext)

/-- Where the value stands once the name is known. -/
def DeclarationContext.value (x : String) : DeclarationContext → ExprContext
  | .statement constant k => .declaration constant x k
  | .forStart k => .forDeclaration x k

end Scriptlet
