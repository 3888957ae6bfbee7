import Scriptlet.Proofs.Syntax.Grammar

/-!
# What a reading state has read

A context is **reached** by the tokens `p` when `p` is the part of a phrase that stands before it:
the finished pieces that the context keeps are phrases of the grammar, with the tokens of the rules
between them (`ExprContext.Reached` and its companions).  A reading state is reached by `p` when `p`
also holds the finished phrase and the tokens that the state is about (`ParseState.Reached`).

Lists are kept last item first, each item with the comma after it: `Items` and `Properties` say
which tokens those are, and `Items.append` puts the rest of the list behind them.
-/

namespace Scriptlet

/-- The tokens are a way to write the phrase in the language. -/
abbrev Yields (phrase : Phrase) (ts : List Token) : Prop := Derives Terminator.optional phrase ts

/-! ### Lists under construction -/

/-- Expressions, last one first, each with a comma after it. -/
inductive Items : List Expr → List Token → Prop where
  | nil : Items [] []
  | snoc {es : List Expr} {e : Expr} {ts us : List Token} :
      Items es ts → Yields (.expr Level.assignment e) us →
      Items (e :: es) (ts ++ us ++ [.symbol .comma])

/-- Properties, last one first, each with a comma after it. -/
inductive Properties : List (String × Expr) → List Token → Prop where
  | nil : Properties [] []
  | snoc {ps : List (String × Expr)} {key : String} {e : Expr} {ts us : List Token} :
      Properties ps ts → Yields (.expr Level.assignment e) us →
      Properties ((key, e) :: ps) (ts ++ .name key :: .symbol .colon :: us ++ [.symbol .comma])

theorem Items.append {es : List Expr} {ts : List Token} (h : Items es ts) :
    ∀ {f : Expr} {fs : List Expr} {us : List Token}, Yields (.list (f :: fs)) us →
      Yields (.list (es.reverse ++ f :: fs)) (ts ++ us) := by
  induction h with
  | nil =>
    intro f fs us hf
    exact hf
  | @snoc es e ts vs _ he ih =>
    intro f fs us hf
    simpa using ih (.moreItems he hf)

theorem Properties.append {ps : List (String × Expr)} {ts : List Token} (h : Properties ps ts) :
    ∀ {q : String × Expr} {qs : List (String × Expr)} {us : List Token},
      Yields (.properties (q :: qs)) us →
      Yields (.properties (ps.reverse ++ q :: qs)) (ts ++ us) := by
  induction h with
  | nil =>
    intro q qs us hq
    exact hq
  | @snoc ps key e ts vs _ he ih =>
    intro q qs us hq
    have hkey : Yields (.properties ((key, e) :: q :: qs)) _ := .moreProperties he hq
    simpa using ih hkey

/-! ### Contexts -/

mutual

/-- The tokens lead from the start of the goal to the place of an expression. -/
inductive ExprContext.Reached (g : Goal) : ExprContext → List Token → Prop where
  | goal {n : Level} : n ≤ Level.primary → g = .expression n → ExprContext.Reached g (.goal n) []
  | unary {op : UnaryOp} {k : ExprContext} {p : List Token} :
      ExprContext.Reached g k p → k.level ≤ Level.unary →
      ExprContext.Reached g (.unary op k) (p ++ [.symbol op.symbol])
  | binary {a : Expr} {op : BinaryOp} {k : ExprContext} {p ts : List Token} :
      ExprContext.Reached g k p → k.level ≤ op.level → Yields (.expr op.level a) ts →
      ExprContext.Reached g (.binary a op k) (p ++ ts ++ [.symbol op.symbol])
  | assign {x : String} {k : ExprContext} {p ts : List Token} :
      ExprContext.Reached g k p → k.level = Level.assignment →
      Yields (.expr Level.disjunction (.name x)) ts →
      ExprContext.Reached g (.assign x k) (p ++ ts ++ [.symbol .equals])
  | group {k : ExprContext} {p : List Token} :
      ExprContext.Reached g k p → ExprContext.Reached g (.group k) (p ++ [.symbol .leftParen])
  | argument {f : Expr} {es : List Expr} {k : ExprContext} {p ts us : List Token} :
      ExprContext.Reached g k p → k.level ≤ Level.suffix →
      Yields (.expr Level.suffix f) ts → Items es us →
      ExprContext.Reached g (.argument f es k) (p ++ ts ++ .symbol .leftParen :: us)
  | index {a : Expr} {k : ExprContext} {p ts : List Token} :
      ExprContext.Reached g k p → k.level ≤ Level.suffix → Yields (.expr Level.suffix a) ts →
      ExprContext.Reached g (.index a k) (p ++ ts ++ [.symbol .leftBracket])
  | element {es : List Expr} {k : ExprContext} {p us : List Token} :
      ExprContext.Reached g k p → Items es us →
      ExprContext.Reached g (.element es k) (p ++ .symbol .leftBracket :: us)
  | property {ps : List (String × Expr)} {key : String} {k : ExprContext} {p us : List Token} :
      ExprContext.Reached g k p → Properties ps us →
      ExprContext.Reached g (.property ps key k)
        (p ++ .symbol .leftBrace :: us ++ [.name key, .symbol .colon])
  | declaration {constant : Bool} {x : String} {k : StatementContext} {p : List Token} :
      StatementContext.Reached g k p →
      ExprContext.Reached g (.declaration constant x k)
        (p ++ [.keyword (declarationKeyword constant), .name x, .symbol .equals])
  | expression {k : StatementContext} {p : List Token} :
      StatementContext.Reached g k p → ExprContext.Reached g (.expression k) p
  | returning {k : StatementContext} {p : List Token} :
      StatementContext.Reached g k p →
      ExprContext.Reached g (.returning k) (p ++ [.keyword .returnWord])
  | ifCondition {k : ConditionalContext} {p : List Token} :
      ConditionalContext.Reached g k p →
      ExprContext.Reached g (.ifCondition k) (p ++ [.keyword .ifWord, .symbol .leftParen])
  | whileCondition {k : StatementContext} {p : List Token} :
      StatementContext.Reached g k p →
      ExprContext.Reached g (.whileCondition k) (p ++ [.keyword .whileWord, .symbol .leftParen])
  | forDeclaration {x : String} {k : StatementContext} {p : List Token} :
      StatementContext.Reached g k p →
      ExprContext.Reached g (.forDeclaration x k)
        (p ++ [.keyword .forWord, .symbol .leftParen, .keyword .letWord, .name x, .symbol .equals])
  | forStart {k : StatementContext} {p : List Token} :
      StatementContext.Reached g k p →
      ExprContext.Reached g (.forStart k) (p ++ [.keyword .forWord, .symbol .leftParen])
  | forCondition {start : Option Statement} {k : StatementContext} {p ts : List Token} :
      StatementContext.Reached g k p → Yields (.forStart start) ts →
      ExprContext.Reached g (.forCondition start k)
        (p ++ .keyword .forWord :: .symbol .leftParen :: ts ++ [.symbol .semicolon])
  | forUpdate {start : Option Statement} {c : Option Expr} {k : StatementContext}
      {p ts us : List Token} :
      StatementContext.Reached g k p → Yields (.forStart start) ts → Yields (.optional c) us →
      ExprContext.Reached g (.forUpdate start c k)
        (p ++ .keyword .forWord :: .symbol .leftParen :: ts ++ .symbol .semicolon :: us ++
          [.symbol .semicolon])

/-- The tokens lead to the place of a statement. -/
inductive StatementContext.Reached (g : Goal) : StatementContext → List Token → Prop where
  | goal : g = .statement → StatementContext.Reached g .goal []
  | item {before : Block} {k : BlockContext} {p ts : List Token} :
      BlockContext.Reached g k p → Yields (.statements before.reverse) ts →
      StatementContext.Reached g (.item before k) (p ++ .symbol .leftBrace :: ts)

/-- The tokens lead to the place of a block. -/
inductive BlockContext.Reached (g : Goal) : BlockContext → List Token → Prop where
  | goal : g = .block → BlockContext.Reached g .goal []
  | consequence {c : Expr} {k : ConditionalContext} {p ts : List Token} :
      ConditionalContext.Reached g k p → Yields (.expr Level.assignment c) ts →
      BlockContext.Reached g (.consequence c k)
        (p ++ .keyword .ifWord :: .symbol .leftParen :: ts ++ [.symbol .rightParen])
  | alternative {c : Expr} {body : Block} {k : ConditionalContext} {p ts us : List Token} :
      ConditionalContext.Reached g k p → Yields (.expr Level.assignment c) ts →
      Yields (.block body) us →
      BlockContext.Reached g (.alternative c body k)
        (p ++ .keyword .ifWord :: .symbol .leftParen :: ts ++ .symbol .rightParen :: us ++
          [.keyword .elseWord])
  | whileBody {c : Expr} {k : StatementContext} {p ts : List Token} :
      StatementContext.Reached g k p → Yields (.expr Level.assignment c) ts →
      BlockContext.Reached g (.whileBody c k)
        (p ++ .keyword .whileWord :: .symbol .leftParen :: ts ++ [.symbol .rightParen])
  | forBody {start : Option Statement} {c u : Option Expr} {k : StatementContext}
      {p ts us vs : List Token} :
      StatementContext.Reached g k p → Yields (.forStart start) ts → Yields (.optional c) us →
      Yields (.optional u) vs →
      BlockContext.Reached g (.forBody start c u k)
        (p ++ .keyword .forWord :: .symbol .leftParen :: ts ++ .symbol .semicolon :: us ++
          .symbol .semicolon :: vs ++ [.symbol .rightParen])
  | function {x : String} {parameters : List String} {k : StatementContext} {p : List Token} :
      StatementContext.Reached g k p →
      BlockContext.Reached g (.function x parameters k)
        (p ++ .keyword .fnWord :: .name x :: parameterTokens parameters)
  | lambda {parameters : List String} {k : ExprContext} {p : List Token} :
      ExprContext.Reached g k p →
      BlockContext.Reached g (.lambda parameters k)
        (p ++ .keyword .fnWord :: parameterTokens parameters)

/-- The tokens lead to the place of an `if` with its branches. -/
inductive ConditionalContext.Reached (g : Goal) : ConditionalContext → List Token → Prop where
  | goal : g = .conditional → ConditionalContext.Reached g .goal []
  | statement {k : StatementContext} {p : List Token} :
      StatementContext.Reached g k p → ConditionalContext.Reached g (.statement k) p
  | elseIf {c : Expr} {body : Block} {k : ConditionalContext} {p ts us : List Token} :
      ConditionalContext.Reached g k p → Yields (.expr Level.assignment c) ts →
      Yields (.block body) us →
      ConditionalContext.Reached g (.elseIf c body k)
        (p ++ .keyword .ifWord :: .symbol .leftParen :: ts ++ .symbol .rightParen :: us ++
          [.keyword .elseWord])

end

/-- The tokens lead to the place of a parameter list. -/
inductive FunctionContext.Reached (g : Goal) : FunctionContext → List Token → Prop where
  | declaration {x : String} {k : StatementContext} {p : List Token} :
      k.Reached g p →
      FunctionContext.Reached g (.declaration x k) (p ++ [.keyword .fnWord, .name x])
  | lambda {k : ExprContext} {p : List Token} :
      k.Reached g p → FunctionContext.Reached g (.lambda k) (p ++ [.keyword .fnWord])

/-- The tokens lead to the place of the name of a declaration. -/
inductive DeclarationContext.Reached (g : Goal) : DeclarationContext → List Token → Prop where
  | statement {constant : Bool} {k : StatementContext} {p : List Token} :
      k.Reached g p →
      DeclarationContext.Reached g (.statement constant k)
        (p ++ [.keyword (declarationKeyword constant)])
  | forStart {k : StatementContext} {p : List Token} :
      k.Reached g p →
      DeclarationContext.Reached g (.forStart k)
        (p ++ [.keyword .forWord, .symbol .leftParen, .keyword .letWord])

/-! ### States -/

/-- The tokens are a way to write the phrase asked for, reported as a statement. -/
def Goal.Yields : Goal → Statement → List Token → Prop
  | .expression n, s, ts => ∃ e, s = .expression e ∧ Scriptlet.Yields (.expr n e) ts
  | .statement, s, ts => Scriptlet.Yields (.statement s) ts
  | .block, s, ts => ∃ body, s = .block body ∧ Scriptlet.Yields (.block body) ts
  | .conditional, s, ts =>
    ∃ c body a, s = .ifElse c body a ∧ Scriptlet.Yields (.conditional c body a) ts

/-- The tokens lead from the start of the goal to the state. -/
def ParseState.Reached (g : Goal) : ParseState → List Token → Prop
  | .operand k, p => k.Reached g p
  | .complete e k, p =>
    ∃ q ts, p = q ++ ts ∧ k.Reached g q ∧ Yields (.expr (max Level.suffix k.level) e) ts
  | .firstArgument f k, p => (ExprContext.argument f [] k).Reached g p
  | .firstElement k, p => (ExprContext.element [] k).Reached g p
  | .firstKey k, p => ∃ q, p = q ++ [.symbol .leftBrace] ∧ k.Reached g q
  | .nextKey before k, p =>
    ∃ q us, p = q ++ .symbol .leftBrace :: us ∧ k.Reached g q ∧ Properties before us
  | .colon before key k, p =>
    ∃ q us, p = q ++ .symbol .leftBrace :: us ++ [.name key] ∧ k.Reached g q ∧
      Properties before us
  | .memberName a k, p =>
    ∃ q ts, p = q ++ ts ++ [.symbol .dot] ∧ k.Reached g q ∧ k.level ≤ Level.suffix ∧
      Yields (.expr Level.suffix a) ts
  | .parametersOpen k, p => k.Reached g p
  | .firstParameter k, p => ∃ q, p = q ++ [.symbol .leftParen] ∧ k.Reached g q
  | .nextParameter before k, p =>
    ∃ q, p = q ++ .symbol .leftParen :: nameTokens before.reverse ++ [.symbol .comma] ∧
      k.Reached g q ∧ before ≠ []
  | .parameterEnd before k, p =>
    ∃ q, p = q ++ .symbol .leftParen :: nameTokens before.reverse ∧ k.Reached g q ∧ before ≠ []
  | .statement k, p => k.Reached g p
  | .functionStatement k, p => ∃ q, p = q ++ [.keyword .fnWord] ∧ k.Reached g q
  | .returnValue k, p => ∃ q, p = q ++ [.keyword .returnWord] ∧ k.Reached g q
  | .ended s k, p => ∃ q ts, p = q ++ ts ∧ k.Reached g q ∧ Yields (.form s) ts
  | .declaredName k, p => k.Reached g p
  | .declaredEquals x k, p => ∃ q, p = q ++ [.name x] ∧ k.Reached g q
  | .conditional k, p => k.Reached g p
  | .ifOpen k, p => ∃ q, p = q ++ [.keyword .ifWord] ∧ k.Reached g q
  | .afterConsequence c body k, p =>
    ∃ q ts us, p = q ++ .keyword .ifWord :: .symbol .leftParen :: ts ++ .symbol .rightParen :: us ∧
      k.Reached g q ∧ Yields (.expr Level.assignment c) ts ∧ Yields (.block body) us
  | .afterElse c body k, p => (ConditionalContext.elseIf c body k).Reached g p
  | .concluded c body a k, p =>
    ∃ q ts, p = q ++ ts ∧ k.Reached g q ∧ Yields (.conditional c body a) ts
  | .whileOpen k, p => ∃ q, p = q ++ [.keyword .whileWord] ∧ k.Reached g q
  | .forOpen k, p => ∃ q, p = q ++ [.keyword .forWord] ∧ k.Reached g q
  | .forStart k, p => (ExprContext.forStart k).Reached g p
  | .forCondition start k, p => (ExprContext.forCondition start k).Reached g p
  | .forUpdate start c k, p => (ExprContext.forUpdate start c k).Reached g p
  | .blockOpen k, p => k.Reached g p
  | .finished s, p => g.Yields s p

theorem Goal.start_reached (g : Goal) (h : ∀ n, g = .expression n → n ≤ Level.primary) :
    g.start.Reached g [] := by
  cases g with
  | expression n => exact .goal (h n rfl) rfl
  | statement => exact .goal rfl
  | block => exact .goal rfl
  | conditional => exact .goal rfl

end Scriptlet
