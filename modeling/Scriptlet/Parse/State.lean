import Scriptlet.Parse.Context
import Scriptlet.Parse.Error

/-!
# Reading one token

A `ParseState` says what has been read, as a phrase in its context, and what may come next.
`ParseState.step` decides on the next token alone: take it and go on (`Move.shift`), declare the
goal reached without it (`Move.done`), or refuse it (`Move.fail`).

An expression that is complete may still grow: by a call, an index or a member at any level down to
`Level.suffix`, by an operator whose level its context takes, and, if it is a bare name, by `=`
(`ParseState.extend?`).  If the token does not extend it, its context is closed around it, layer by
layer, until a layer takes the token or refuses it (`ParseState.close`).
-/

namespace Scriptlet

/-- What has been read so far, and what comes next. -/
inductive ParseState where
  | operand (k : ExprContext)
  | complete (e : Expr) (k : ExprContext)
  | firstArgument (callee : Expr) (k : ExprContext)
  | firstElement (k : ExprContext)
  | firstKey (k : ExprContext)
  | nextKey (before : List (String × Expr)) (k : ExprContext)
  | colon (before : List (String × Expr)) (key : String) (k : ExprContext)
  | memberName (object : Expr) (k : ExprContext)
  | parametersOpen (k : FunctionContext)
  | firstParameter (k : FunctionContext)
  | nextParameter (before : List String) (k : FunctionContext)
  | parameterEnd (before : List String) (k : FunctionContext)
  | statement (k : StatementContext)
  | functionStatement (k : StatementContext)
  | returnValue (k : StatementContext)
  | ended (s : Statement) (k : StatementContext)
  | declaredName (k : DeclarationContext)
  | declaredEquals (x : String) (k : DeclarationContext)
  | conditional (k : ConditionalContext)
  | ifOpen (k : ConditionalContext)
  | afterConsequence (condition : Expr) (consequence : Block) (k : ConditionalContext)
  | afterElse (condition : Expr) (consequence : Block) (k : ConditionalContext)
  | concluded (condition : Expr) (consequence : Block) (alternative : Alternative)
      (k : ConditionalContext)
  | whileOpen (k : StatementContext)
  | forOpen (k : StatementContext)
  | forStart (k : StatementContext)
  | forCondition (start : Option Statement) (k : StatementContext)
  | forUpdate (start : Option Statement) (condition : Option Expr) (k : StatementContext)
  | blockOpen (k : BlockContext)
  | finished (s : Statement)

/-- What to do about the next token.  A goal other than a statement is reported as one: an
expression as an expression statement, a block as a block statement. -/
inductive Move where
  | shift (next : ParseState)
  | done (s : Statement)
  | fail (expected : Expectation)

namespace ParseState

/-- Takes the symbol `s` and nothing else. -/
def expect (s : Symbol) (next : ParseState) (t : Token) : Move :=
  if t = .symbol s then .shift next else .fail (.token (.symbol s))

/-- Takes a comma or the symbol that closes the list. -/
def separator (closing : Symbol) (more last : ParseState) (t : Token) : Move :=
  if t = .symbol .comma then .shift more
  else if t = .symbol closing then .shift last
  else .fail (.commaOr closing)

/-- Takes a name. -/
def identifier (next : String → ParseState) : Token → Move
  | .name x => .shift (next x)
  | _ => .fail .identifier

/-! ## Expressions -/

/-- Takes the first token of an expression. -/
def startOperand (k : ExprContext) : Token → Move
  | .number n => .shift (.complete (.literal (.number n)) k)
  | .text s => .shift (.complete (.literal (.text s)) k)
  | .keyword .trueWord => .shift (.complete (.literal (.boolean true)) k)
  | .keyword .falseWord => .shift (.complete (.literal (.boolean false)) k)
  | .keyword .nullWord => .shift (.complete (.literal .null) k)
  | .keyword .fnWord => .shift (.parametersOpen (.lambda k))
  | .name x => .shift (.complete (.name x) k)
  | .symbol .leftBracket => .shift (.firstElement k)
  | .symbol .leftBrace => .shift (.firstKey k)
  | .symbol .leftParen => .shift (.operand (.group k))
  | t =>
    match UnaryOp.ofToken? t with
    | some op =>
      if k.level ≤ Level.unary then .shift (.operand (.unary op k)) else .fail .expression
    | none => .fail .expression

/-- How the token makes the expression `e` grow, if it does. -/
def extend? (e : Expr) (k : ExprContext) : Token → Option ParseState
  | .symbol .leftParen => if k.level ≤ Level.suffix then some (.firstArgument e k) else none
  | .symbol .leftBracket => if k.level ≤ Level.suffix then some (.operand (.index e k)) else none
  | .symbol .dot => if k.level ≤ Level.suffix then some (.memberName e k) else none
  | .symbol .equals =>
    match e with
    | .name x => if k.level = Level.assignment then some (.operand (.assign x k)) else none
    | _ => none
  | t =>
    match BinaryOp.ofToken? t with
    | some op => if k.level ≤ op.level then some (.operand (.binary e op k)) else none
    | none => none

/-! ## Statements -/

/-- The state after the `}` of a block. -/
def closeBlock (body : Block) : BlockContext → ParseState
  | .goal => .finished (.block body)
  | .consequence condition k => .afterConsequence condition body k
  | .alternative condition consequence k => .concluded condition consequence (.block body) k
  | .whileBody condition k => .ended (.whileLoop condition body) k
  | .forBody start condition update k => .ended (.forLoop start condition update body) k
  | .function x parameters k => .ended (.function x parameters body) k
  | .lambda parameters k => .complete (.function parameters body) k

/-- Takes the first token of a statement, or the `}` of the block it would stand in. -/
def startStatement (k : StatementContext) (t : Token) : Move :=
  match t, k with
  | .symbol .rightBrace, .item before outer => .shift (closeBlock before.reverse outer)
  | .keyword .letWord, _ => .shift (.declaredName (.statement false k))
  | .keyword .constWord, _ => .shift (.declaredName (.statement true k))
  | .keyword .ifWord, _ => .shift (.ifOpen (.statement k))
  | .keyword .whileWord, _ => .shift (.whileOpen k)
  | .keyword .forWord, _ => .shift (.forOpen k)
  | .keyword .fnWord, _ => .shift (.functionStatement k)
  | .keyword .returnWord, _ => .shift (.returnValue k)
  | _, _ => startOperand (.expression k) t

/-- One semicolon may follow a statement. -/
def endStatement (s : Statement) (k : StatementContext) (t : Token) : Move :=
  match k with
  | .goal => if t = .symbol .semicolon then .shift (.finished s) else .done s
  | .item before outer =>
    if t = .symbol .semicolon then .shift (.statement (.item (s :: before) outer))
    else startStatement (.item (s :: before) outer) t

/-- An `if` is complete with the branches it has. -/
def conclude (condition : Expr) (consequence : Block) (alternative : Alternative)
    (k : ConditionalContext) (t : Token) : Move :=
  match k with
  | .goal => .done (.ifElse condition consequence alternative)
  | .statement k => endStatement (.ifElse condition consequence alternative) k t
  | .elseIf outer first k => conclude outer first (.elseIf condition consequence alternative) k t

/-- Closes the context around an expression that the token does not extend. -/
def close (e : Expr) (k : ExprContext) (t : Token) : Move :=
  match extend? e k t with
  | some next => .shift next
  | none =>
    match k with
    | .goal _ => .done (.expression e)
    | .unary op k => close (.unary op e) k t
    | .binary left op k => close (.binary op left e) k t
    | .assign x k => close (.assign x e) k t
    | .group k => expect .rightParen (.complete e k) t
    | .argument callee before k =>
      separator .rightParen (.operand (.argument callee (e :: before) k))
        (.complete (.call callee (e :: before).reverse) k) t
    | .index object k => expect .rightBracket (.complete (.index object e) k) t
    | .element before k =>
      separator .rightBracket (.operand (.element (e :: before) k))
        (.complete (.array (e :: before).reverse) k) t
    | .property before key k =>
      separator .rightBrace (.nextKey ((key, e) :: before) k)
        (.complete (.object ((key, e) :: before).reverse) k) t
    | .declaration constant x k => endStatement (.declare constant x e) k t
    | .expression k => endStatement (.expression e) k t
    | .returning k => endStatement (.returning (some e)) k t
    | .ifCondition k => expect .rightParen (.blockOpen (.consequence e k)) t
    | .whileCondition k => expect .rightParen (.blockOpen (.whileBody e k)) t
    | .forDeclaration x k => expect .semicolon (.forCondition (some (.declare false x e)) k) t
    | .forStart k => expect .semicolon (.forCondition (some (.expression e)) k) t
    | .forCondition start k => expect .semicolon (.forUpdate start (some e) k) t
    | .forUpdate start condition k =>
      expect .rightParen (.blockOpen (.forBody start condition (some e) k)) t

/-! ## The step -/

/-- Decides on the next token. -/
def step (state : ParseState) (t : Token) : Move :=
  match state with
  | .operand k => startOperand k t
  | .complete e k => close e k t
  | .firstArgument callee k =>
    if t = .symbol .rightParen then .shift (.complete (.call callee []) k)
    else startOperand (.argument callee [] k) t
  | .firstElement k =>
    if t = .symbol .rightBracket then .shift (.complete (.array []) k)
    else startOperand (.element [] k) t
  | .firstKey k =>
    if t = .symbol .rightBrace then .shift (.complete (.object []) k)
    else identifier (fun x => .colon [] x k) t
  | .nextKey before k => identifier (fun x => .colon before x k) t
  | .colon before key k => expect .colon (.operand (.property before key k)) t
  | .memberName object k => identifier (fun x => .complete (.member object x) k) t
  | .parametersOpen k => expect .leftParen (.firstParameter k) t
  | .firstParameter k =>
    if t = .symbol .rightParen then .shift (.blockOpen (k.body []))
    else identifier (fun x => .parameterEnd [x] k) t
  | .nextParameter before k => identifier (fun x => .parameterEnd (x :: before) k) t
  | .parameterEnd before k =>
    separator .rightParen (.nextParameter before k) (.blockOpen (k.body before.reverse)) t
  | .statement k => startStatement k t
  | .functionStatement k =>
    match t with
    | .name x => .shift (.parametersOpen (.declaration x k))
    | _ => expect .leftParen (.firstParameter (.lambda (.expression k))) t
  | .returnValue k =>
    if t = .symbol .semicolon ∨ t = .symbol .rightBrace ∨ t = .endOfInput then
      endStatement (.returning none) k t
    else startOperand (.returning k) t
  | .ended s k => endStatement s k t
  | .declaredName k => identifier (fun x => .declaredEquals x k) t
  | .declaredEquals x k => expect .equals (.operand (k.value x)) t
  | .conditional k =>
    if t = .keyword .ifWord then .shift (.ifOpen k) else .fail (.token (.keyword .ifWord))
  | .ifOpen k => expect .leftParen (.operand (.ifCondition k)) t
  | .afterConsequence condition consequence k =>
    if t = .keyword .elseWord then .shift (.afterElse condition consequence k)
    else conclude condition consequence .absent k t
  | .afterElse condition consequence k =>
    if t = .keyword .ifWord then .shift (.ifOpen (.elseIf condition consequence k))
    else expect .leftBrace (.statement (.item [] (.alternative condition consequence k))) t
  | .concluded condition consequence alternative k =>
    conclude condition consequence alternative k t
  | .whileOpen k => expect .leftParen (.operand (.whileCondition k)) t
  | .forOpen k => expect .leftParen (.forStart k) t
  | .forStart k =>
    if t = .symbol .semicolon then .shift (.forCondition none k)
    else if t = .keyword .letWord then .shift (.declaredName (.forStart k))
    else startOperand (.forStart k) t
  | .forCondition start k =>
    if t = .symbol .semicolon then .shift (.forUpdate start none k)
    else startOperand (.forCondition start k) t
  | .forUpdate start condition k =>
    if t = .symbol .rightParen then .shift (.blockOpen (.forBody start condition none k))
    else startOperand (.forUpdate start condition k) t
  | .blockOpen k => expect .leftBrace (.statement (.item [] k)) t
  | .finished s => .done s

end ParseState

end Scriptlet
