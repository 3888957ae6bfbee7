import Scriptlet.Eval.Basic

/-!
# Evaluation

Expressions, statements, calls and loops evaluate one another.  Each step spends one unit of fuel,
so evaluation is defined for every program; a run that ends with some fuel ends the same way with
more.

* Operands are evaluated from left to right, both operands of `&&` and `||` always.
* A block runs in a new scope.  A call runs the body in a new block inside a scope for the
  parameters, which stands inside the scope of the closure.
* A `for` has a scope for its start, condition and update; each round runs the body in a scope of
  its own.
* A list of statements has the value of its last statement, a loop that of its last round.
-/

namespace Scriptlet

/-- How a statement ended: normally, or by a return that is on its way out. -/
inductive Flow where
  | normal (v : Value)
  | returned (v : Value)

namespace Flow

def value : Flow → Value
  | .normal v => v
  | .returned v => v

def isReturned : Flow → Bool
  | .normal _ => false
  | .returned _ => true

end Flow

namespace Eval

mutual

def expr : Nat → ScopeId → Expr → Eval Value
  | 0, _, _ => throw .outOfFuel
  | n + 1, id, e =>
    match e with
    | .literal l => pure (.ofLiteral l)
    | .name x => read id x
    | .binary op left right => do
      let a ← expr n id left
      let b ← expr n id right
      ofExcept (op.apply a b)
    | .unary op operand => do
      let v ← expr n id operand
      ofExcept (op.apply v)
    | .call callee arguments => do
      let f ← expr n id callee
      let vs ← exprs n id arguments
      call n f vs
    | .member object key => do
      let v ← expr n id object
      ofExcept (v.member key)
    | .index object index => do
      let v ← expr n id object
      let i ← expr n id index
      ofExcept (v.index i)
    | .assign x value => do
      let v ← expr n id value
      assign id x v
      pure v
    | .array elements => do
      let vs ← exprs n id elements
      pure (.array vs)
    | .object properties => do
      let vs ← exprs n id (properties.map Prod.snd)
      pure (.object (Fields.ofList ((properties.map Prod.fst).zip vs)))
    | .function parameters body => pure (.closure parameters body id)
termination_by structural fuel => fuel

def exprs : Nat → ScopeId → List Expr → Eval (List Value)
  | 0, _, _ => throw .outOfFuel
  | _ + 1, _, [] => pure []
  | n + 1, id, e :: es => do
    let v ← expr n id e
    let vs ← exprs n id es
    pure (v :: vs)
termination_by structural fuel => fuel

def call : Nat → Value → List Value → Eval Value
  | 0, _, _ => throw .outOfFuel
  | n + 1, callee, arguments =>
    match callee with
    | .builtin b => b.call arguments
    | .closure parameters body outer =>
      if arguments.length = parameters.length then do
        let id ← enter outer
        defineAll id (parameters.zip arguments)
        let flow ← block n id body
        pure flow.value
      else fault (.arity parameters.length arguments.length)
    | v => fault (.type (.call v.kind))
termination_by structural fuel => fuel

def block : Nat → ScopeId → Block → Eval Flow
  | 0, _, _ => throw .outOfFuel
  | n + 1, outer, body => do
    let id ← enter outer
    statements n id .null body
termination_by structural fuel => fuel

/-- Runs statements in order; `last` is the value of the statement before them. -/
def statements : Nat → ScopeId → Value → Block → Eval Flow
  | 0, _, _, _ => throw .outOfFuel
  | _ + 1, _, last, [] => pure (.normal last)
  | n + 1, id, _, s :: rest => do
    match ← statement n id s with
    | .returned v => pure (.returned v)
    | .normal v => statements n id v rest
termination_by structural fuel => fuel

def statement : Nat → ScopeId → Statement → Eval Flow
  | 0, _, _ => throw .outOfFuel
  | n + 1, id, s =>
    match s with
    | .declare constant x value => do
      let v ← expr n id value
      define id x v constant
      pure (.normal .null)
    | .expression value => do
      let v ← expr n id value
      pure (.normal v)
    | .block body => block n id body
    | .ifElse condition consequence alternative =>
      conditional n id condition consequence alternative
    | .whileLoop condition body => loop n id (some condition) none body .null
    | .forLoop start condition update body => do
      let inner ← enter id
      optionally (statement n inner) start
      loop n inner condition update body .null
    | .function x parameters body => do
      define id x (.closure parameters body id) false
      pure (.normal .null)
    | .returning (some value) => do
      let v ← expr n id value
      pure (.returned v)
    | .returning none => pure (.returned .null)
termination_by structural fuel => fuel

def conditional : Nat → ScopeId → Expr → Block → Alternative → Eval Flow
  | 0, _, _, _, _ => throw .outOfFuel
  | n + 1, id, condition, consequence, alternative => do
    let v ← expr n id condition
    if v.truthy then block n id consequence
    else
      match alternative with
      | .absent => pure (.normal .null)
      | .block body => block n id body
      | .elseIf condition consequence alternative =>
        conditional n id condition consequence alternative
termination_by structural fuel => fuel

/-- Rounds of a loop; `last` is the value of the round before them. -/
def loop : Nat → ScopeId → Option Expr → Option Expr → Block → Value → Eval Flow
  | 0, _, _, _, _, _ => throw .outOfFuel
  | n + 1, id, condition, update, body, last => do
    if ← holds (expr n id) condition then
      match ← block n id body with
      | .returned v => pure (.returned v)
      | .normal v => do
        optionally (expr n id) update
        loop n id condition update body v
    else pure (.normal last)
termination_by structural fuel => fuel

end

/-- More steps than a run can take in any amount of time. -/
def ample : Nat := Nat.pow 2 62

/-- Runs a program in the global scope. -/
def program (fuel : Nat) (body : Block) : Eval Value := do
  let flow ← statements fuel State.globalId .null body
  pure flow.value

end Eval

end Scriptlet
