import Scriptlet.Parse.Program

/-!
# The grammar

What the phrases of the language look like, said without the reader: `Derives ends phrase ts` means
that the tokens `ts` are a way to write `phrase`, a kind of phrase together with the tree it stands
for.

    assignment  := disjunction | disjunction "=" assignment      (left: a bare name)
    disjunction := conjunction ("||" conjunction)*               (and so on, down to "*", "/", "%")
    unary       := ("-" | "!") unary | suffix
    suffix      := primary ("(" list ")" | "[" expression "]" | "." name)*
    primary     := literal | name | "[" list "]" | object | function | "(" expression ")"
    statement   := form end

The levels of expressions are numbered as in `Level`, so one rule serves all binary operators: the
left operand may have the level of the operator, the right one is a level tighter.  An expression of
a tighter level is one of every looser level (`Derives.loosen`), and parentheses make any expression
a primary one without leaving a trace in its tree.  A list has commas between its items and none
after the last one.

What may stand after a statement is a parameter: `Terminator.optional` is the language, a semicolon
or nothing; `Terminator.required` asks for the semicolon.
-/

namespace Scriptlet

/-- The token that spells a literal. -/
def Literal.token : Literal → Token
  | .number n => .number n
  | .text s => .text s
  | .boolean true => .keyword .trueWord
  | .boolean false => .keyword .falseWord
  | .null => .keyword .nullWord

/-- The keyword of a declaration. -/
def declarationKeyword (constant : Bool) : Keyword := if constant then .constWord else .letWord

/-- Names with commas between them. -/
def nameTokens (xs : List String) : List Token :=
  (xs.map Token.name).intersperse (.symbol .comma)

/-- A parameter list with its parentheses. -/
def parameterTokens (parameters : List String) : List Token :=
  .symbol .leftParen :: (nameTokens parameters ++ [.symbol .rightParen])

/-- A kind of phrase and the tree of a phrase of that kind.  A `form` is a statement without its
end. -/
inductive Phrase where
  | expr (level : Level) (e : Expr)
  | optional (e : Option Expr)
  | list (es : List Expr)
  | properties (ps : List (String × Expr))
  | block (body : Block)
  | alternative (a : Alternative)
  | conditional (condition : Expr) (consequence : Block) (a : Alternative)
  | forStart (start : Option Statement)
  | form (s : Statement)
  | statement (s : Statement)
  | statements (body : Block)

namespace Terminator

def optional (ts : List Token) : Prop := ts = [] ∨ ts = [.symbol .semicolon]

def required (ts : List Token) : Prop := ts = [.symbol .semicolon]

end Terminator

/-- The tokens are a way to write the phrase, where `ends` says what may follow a statement. -/
inductive Derives (ends : List Token → Prop) : Phrase → List Token → Prop where
  -- levels of expressions
  | loosen {n : Level} {e : Expr} {ts : List Token} :
      Derives ends (.expr (n + 1) e) ts → Derives ends (.expr n e) ts
  | assign {x : String} {e : Expr} {ts us : List Token} :
      Derives ends (.expr Level.disjunction (.name x)) ts →
      Derives ends (.expr Level.assignment e) us →
      Derives ends (.expr Level.assignment (.assign x e)) (ts ++ .symbol .equals :: us)
  | binary {op : BinaryOp} {a b : Expr} {ts us : List Token} :
      Derives ends (.expr op.level a) ts → Derives ends (.expr (op.level + 1) b) us →
      Derives ends (.expr op.level (.binary op a b)) (ts ++ .symbol op.symbol :: us)
  | unary {op : UnaryOp} {e : Expr} {ts : List Token} :
      Derives ends (.expr Level.unary e) ts →
      Derives ends (.expr Level.unary (.unary op e)) (.symbol op.symbol :: ts)
  -- suffixes
  | call {f : Expr} {es : List Expr} {ts us : List Token} :
      Derives ends (.expr Level.suffix f) ts → Derives ends (.list es) us →
      Derives ends (.expr Level.suffix (.call f es))
        (ts ++ .symbol .leftParen :: (us ++ [.symbol .rightParen]))
  | index {a i : Expr} {ts us : List Token} :
      Derives ends (.expr Level.suffix a) ts → Derives ends (.expr Level.assignment i) us →
      Derives ends (.expr Level.suffix (.index a i))
        (ts ++ .symbol .leftBracket :: (us ++ [.symbol .rightBracket]))
  | member {a : Expr} {x : String} {ts : List Token} :
      Derives ends (.expr Level.suffix a) ts →
      Derives ends (.expr Level.suffix (.member a x)) (ts ++ [.symbol .dot, .name x])
  -- primary expressions
  | literal (l : Literal) : Derives ends (.expr Level.primary (.literal l)) [l.token]
  | name (x : String) : Derives ends (.expr Level.primary (.name x)) [.name x]
  | array {es : List Expr} {ts : List Token} :
      Derives ends (.list es) ts →
      Derives ends (.expr Level.primary (.array es))
        (.symbol .leftBracket :: (ts ++ [.symbol .rightBracket]))
  | object {ps : List (String × Expr)} {ts : List Token} :
      Derives ends (.properties ps) ts →
      Derives ends (.expr Level.primary (.object ps))
        (.symbol .leftBrace :: (ts ++ [.symbol .rightBrace]))
  | lambda {parameters : List String} {body : Block} {ts : List Token} :
      Derives ends (.block body) ts →
      Derives ends (.expr Level.primary (.function parameters body))
        (.keyword .fnWord :: (parameterTokens parameters ++ ts))
  | group {e : Expr} {ts : List Token} :
      Derives ends (.expr Level.assignment e) ts →
      Derives ends (.expr Level.primary e) (.symbol .leftParen :: (ts ++ [.symbol .rightParen]))
  -- expressions that may be missing, and lists
  | absent : Derives ends (.optional none) []
  | present {e : Expr} {ts : List Token} :
      Derives ends (.expr Level.assignment e) ts → Derives ends (.optional (some e)) ts
  | noItem : Derives ends (.list []) []
  | lastItem {e : Expr} {ts : List Token} :
      Derives ends (.expr Level.assignment e) ts → Derives ends (.list [e]) ts
  | moreItems {e f : Expr} {es : List Expr} {ts us : List Token} :
      Derives ends (.expr Level.assignment e) ts → Derives ends (.list (f :: es)) us →
      Derives ends (.list (e :: f :: es)) (ts ++ .symbol .comma :: us)
  | noProperty : Derives ends (.properties []) []
  | lastProperty {key : String} {e : Expr} {ts : List Token} :
      Derives ends (.expr Level.assignment e) ts →
      Derives ends (.properties [(key, e)]) (.name key :: .symbol .colon :: ts)
  | moreProperties {key : String} {e : Expr} {p : String × Expr} {ps : List (String × Expr)}
      {ts us : List Token} :
      Derives ends (.expr Level.assignment e) ts → Derives ends (.properties (p :: ps)) us →
      Derives ends (.properties ((key, e) :: p :: ps))
        (.name key :: .symbol .colon :: (ts ++ .symbol .comma :: us))
  -- statements
  | block {body : Block} {ts : List Token} :
      Derives ends (.statements body) ts →
      Derives ends (.block body) (.symbol .leftBrace :: (ts ++ [.symbol .rightBrace]))
  | noElse : Derives ends (.alternative .absent) []
  | otherwise {body : Block} {ts : List Token} :
      Derives ends (.block body) ts →
      Derives ends (.alternative (.block body)) (.keyword .elseWord :: ts)
  | elseIf {c : Expr} {body : Block} {a : Alternative} {ts : List Token} :
      Derives ends (.conditional c body a) ts →
      Derives ends (.alternative (.elseIf c body a)) (.keyword .elseWord :: ts)
  | conditional {c : Expr} {body : Block} {a : Alternative} {ts us vs : List Token} :
      Derives ends (.expr Level.assignment c) ts → Derives ends (.block body) us →
      Derives ends (.alternative a) vs →
      Derives ends (.conditional c body a)
        (.keyword .ifWord :: .symbol .leftParen :: (ts ++ .symbol .rightParen :: (us ++ vs)))
  | noStart : Derives ends (.forStart none) []
  | startDeclare {x : String} {e : Expr} {ts : List Token} :
      Derives ends (.expr Level.assignment e) ts →
      Derives ends (.forStart (some (.declare false x e)))
        (.keyword .letWord :: .name x :: .symbol .equals :: ts)
  | startExpression {e : Expr} {ts : List Token} :
      Derives ends (.expr Level.assignment e) ts →
      Derives ends (.forStart (some (.expression e))) ts
  | declare {constant : Bool} {x : String} {e : Expr} {ts : List Token} :
      Derives ends (.expr Level.assignment e) ts →
      Derives ends (.form (.declare constant x e))
        (.keyword (declarationKeyword constant) :: .name x :: .symbol .equals :: ts)
  | expression {e : Expr} {ts : List Token} :
      Derives ends (.expr Level.assignment e) ts → Derives ends (.form (.expression e)) ts
  | ifElse {c : Expr} {body : Block} {a : Alternative} {ts : List Token} :
      Derives ends (.conditional c body a) ts → Derives ends (.form (.ifElse c body a)) ts
  | whileLoop {c : Expr} {body : Block} {ts us : List Token} :
      Derives ends (.expr Level.assignment c) ts → Derives ends (.block body) us →
      Derives ends (.form (.whileLoop c body))
        (.keyword .whileWord :: .symbol .leftParen :: (ts ++ .symbol .rightParen :: us))
  | forLoop {start : Option Statement} {c u : Option Expr} {body : Block}
      {ts us vs ws : List Token} :
      Derives ends (.forStart start) ts → Derives ends (.optional c) us →
      Derives ends (.optional u) vs → Derives ends (.block body) ws →
      Derives ends (.form (.forLoop start c u body))
        (.keyword .forWord :: .symbol .leftParen ::
          (ts ++ .symbol .semicolon :: (us ++ .symbol .semicolon ::
            (vs ++ .symbol .rightParen :: ws))))
  | function {x : String} {parameters : List String} {body : Block} {ts : List Token} :
      Derives ends (.block body) ts →
      Derives ends (.form (.function x parameters body))
        (.keyword .fnWord :: .name x :: (parameterTokens parameters ++ ts))
  | returning {e : Option Expr} {ts : List Token} :
      Derives ends (.optional e) ts →
      Derives ends (.form (.returning e)) (.keyword .returnWord :: ts)
  | statement {s : Statement} {ts us : List Token} :
      Derives ends (.form s) ts → ends us → Derives ends (.statement s) (ts ++ us)
  | noStatement : Derives ends (.statements []) []
  | moreStatements {s : Statement} {body : Block} {ts us : List Token} :
      Derives ends (.statement s) ts → Derives ends (.statements body) us →
      Derives ends (.statements (s :: body)) (ts ++ us)

/-! ### Derivations -/

namespace Derives

variable {ends : List Token → Prop}

theorem loosen_le {m n : Level} {e : Expr} {ts : List Token} (h : m ≤ n)
    (he : Derives ends (.expr n e) ts) : Derives ends (.expr m e) ts := by
  induction h with
  | refl => exact he
  | step _ ih => exact ih he.loosen

theorem statements_append {b c : Block} {ts us : List Token} (hb : Derives ends (.statements b) ts)
    (hc : Derives ends (.statements c) us) : Derives ends (.statements (b ++ c)) (ts ++ us) := by
  induction b generalizing ts with
  | nil =>
    cases hb
    exact hc
  | cons s b ih =>
    cases hb with
    | moreStatements hs hb =>
      rw [List.cons_append, List.append_assoc]
      exact .moreStatements hs (ih hb)

end Derives

end Scriptlet
