import Scriptlet.Proofs.Syntax.Recovery

/-!
# Phrases in their surroundings

An expression or a block is read alike wherever it stands.  The reader keeps what stands around a
phrase at the bottom of its context and does not look at it before the phrase is complete.  So a
reading of the phrase alone is turned into a reading of it in its surroundings by putting these in
the place of the goal (`ParseState.within`), and every step of the one is a step of the other
(`ParseState.step_within`): a token that is refused here is refused there, and the end of the phrase
is the place where its surroundings go on (`Surroundings.resumed`).

* `expression_within`: an expression that is accepted alone is read in front of the same token in
  every place that takes any expression.
* `block_within`: a block that is accepted alone is read in every place for a block.
* `block_refused_within`: a block that is refused alone is refused there, at the same token.
-/

namespace Scriptlet

open ParseState (startOperand extend? closeBlock startStatement endStatement conclude close expect
  separator identifier Takes)

/-- The place of an expression and the place of a block. -/
structure Surroundings where
  expr : ExprContext
  block : BlockContext
  expr_level : expr.level = Level.assignment

/-- The phrase asked for may stand within other phrases: it is any expression, or a block. -/
inductive Goal.Inner : Goal → Prop
  | expression : Inner (.expression Level.assignment)
  | block : Inner .block

/-! ## Surroundings in the place of the goal -/

mutual

def ExprContext.within (σ : Surroundings) : ExprContext → ExprContext
  | .goal _ => σ.expr
  | .unary op k => .unary op (k.within σ)
  | .binary left op k => .binary left op (k.within σ)
  | .assign x k => .assign x (k.within σ)
  | .group k => .group (k.within σ)
  | .argument callee before k => .argument callee before (k.within σ)
  | .index object k => .index object (k.within σ)
  | .element before k => .element before (k.within σ)
  | .property before key k => .property before key (k.within σ)
  | .declaration constant x k => .declaration constant x (k.within σ)
  | .expression k => .expression (k.within σ)
  | .returning k => .returning (k.within σ)
  | .ifCondition k => .ifCondition (k.within σ)
  | .whileCondition k => .whileCondition (k.within σ)
  | .forDeclaration x k => .forDeclaration x (k.within σ)
  | .forStart k => .forStart (k.within σ)
  | .forCondition start k => .forCondition start (k.within σ)
  | .forUpdate start condition k => .forUpdate start condition (k.within σ)

def StatementContext.within (σ : Surroundings) : StatementContext → StatementContext
  | .goal => .goal
  | .item before k => .item before (k.within σ)

def BlockContext.within (σ : Surroundings) : BlockContext → BlockContext
  | .goal => σ.block
  | .consequence condition k => .consequence condition (k.within σ)
  | .alternative condition consequence k => .alternative condition consequence (k.within σ)
  | .whileBody condition k => .whileBody condition (k.within σ)
  | .forBody start condition update k => .forBody start condition update (k.within σ)
  | .function x parameters k => .function x parameters (k.within σ)
  | .lambda parameters k => .lambda parameters (k.within σ)

def ConditionalContext.within (σ : Surroundings) : ConditionalContext → ConditionalContext
  | .goal => .goal
  | .statement k => .statement (k.within σ)
  | .elseIf condition consequence k => .elseIf condition consequence (k.within σ)

end

def FunctionContext.within (σ : Surroundings) : FunctionContext → FunctionContext
  | .declaration x k => .declaration x (k.within σ)
  | .lambda k => .lambda (k.within σ)

def DeclarationContext.within (σ : Surroundings) : DeclarationContext → DeclarationContext
  | .statement constant k => .statement constant (k.within σ)
  | .forStart k => .forStart (k.within σ)

/-- Where reading goes on behind the phrase asked for. -/
def Surroundings.resumed (σ : Surroundings) : Statement → ParseState
  | .expression e => .complete e σ.expr
  | .block body => closeBlock body σ.block
  | s => .finished s

def ParseState.within (σ : Surroundings) : ParseState → ParseState
  | .operand k => .operand (k.within σ)
  | .complete e k => .complete e (k.within σ)
  | .firstArgument callee k => .firstArgument callee (k.within σ)
  | .firstElement k => .firstElement (k.within σ)
  | .firstKey k => .firstKey (k.within σ)
  | .nextKey before k => .nextKey before (k.within σ)
  | .colon before key k => .colon before key (k.within σ)
  | .memberName object k => .memberName object (k.within σ)
  | .parametersOpen k => .parametersOpen (k.within σ)
  | .firstParameter k => .firstParameter (k.within σ)
  | .nextParameter before k => .nextParameter before (k.within σ)
  | .parameterEnd before k => .parameterEnd before (k.within σ)
  | .statement k => .statement (k.within σ)
  | .functionStatement k => .functionStatement (k.within σ)
  | .returnValue k => .returnValue (k.within σ)
  | .ended s k => .ended s (k.within σ)
  | .declaredName k => .declaredName (k.within σ)
  | .declaredEquals x k => .declaredEquals x (k.within σ)
  | .conditional k => .conditional (k.within σ)
  | .ifOpen k => .ifOpen (k.within σ)
  | .afterConsequence condition consequence k =>
    .afterConsequence condition consequence (k.within σ)
  | .afterElse condition consequence k => .afterElse condition consequence (k.within σ)
  | .concluded condition consequence alternative k =>
    .concluded condition consequence alternative (k.within σ)
  | .whileOpen k => .whileOpen (k.within σ)
  | .forOpen k => .forOpen (k.within σ)
  | .forStart k => .forStart (k.within σ)
  | .forCondition start k => .forCondition start (k.within σ)
  | .forUpdate start condition k => .forUpdate start condition (k.within σ)
  | .blockOpen k => .blockOpen (k.within σ)
  | .finished s => σ.resumed s

/-- At the end of the phrase its surroundings decide on the next token. -/
def Move.within (σ : Surroundings) (t : Token) : Move → Move
  | .shift next => .shift (next.within σ)
  | .done s => (σ.resumed s).step t
  | .fail x => .fail x

/-! ## One token -/

variable {σ : Surroundings} {g : Goal} {p : List Token} {t : Token}

theorem ExprContext.Reached.level_within {k : ExprContext} (hk : k.Reached g p) (hg : g.Inner) :
    (k.within σ).level = k.level := by
  cases hk with
  | goal _ heq =>
    subst heq
    cases hg
    exact σ.expr_level
  | _ => rfl

theorem FunctionContext.within_body (parameters : List String) (k : FunctionContext) :
    (k.body parameters).within σ = (k.within σ).body parameters := by
  cases k <;> rw [body, BlockContext.within, within, body]

theorem DeclarationContext.within_value (x : String) (k : DeclarationContext) :
    (k.value x).within σ = (k.within σ).value x := by
  cases k <;> rw [value, ExprContext.within, within, value]

namespace ParseState

theorem within_closeBlock (body : Block) (k : BlockContext) :
    (closeBlock body k).within σ = closeBlock body (k.within σ) := by
  cases k <;> simp only [closeBlock, within, BlockContext.within, Surroundings.resumed]

theorem expect_within (s : Symbol) (next : ParseState) :
    (expect s next t).within σ t = expect s (next.within σ) t := by
  rw [expect, expect]
  split <;> rfl

theorem separator_within (closing : Symbol) (more last : ParseState) :
    (separator closing more last t).within σ t =
      separator closing (more.within σ) (last.within σ) t := by
  rw [separator, separator]
  split
  · rfl
  · split <;> rfl

theorem identifier_within (next : String → ParseState) :
    (identifier next t).within σ t = identifier (fun x => (next x).within σ) t := by
  cases t <;> rfl

theorem startOperand_within {k : ExprContext} (hlevel : (k.within σ).level = k.level) (t : Token) :
    (startOperand k t).within σ t = startOperand (k.within σ) t := by
  fun_cases startOperand k t <;>
    simp_all [startOperand, Move.within, within, ExprContext.within, FunctionContext.within]

theorem extend?_within {k : ExprContext} (hlevel : (k.within σ).level = k.level) (e : Expr)
    (t : Token) : (extend? e k t).map (within σ) = extend? e (k.within σ) t := by
  fun_cases extend? e k t <;> simp_all [extend?, within, ExprContext.within]

theorem startStatement_within (k : StatementContext) (t : Token) :
    (startStatement k t).within σ t = startStatement (k.within σ) t := by
  fun_cases startStatement k t with
  | case1 before outer => exact congrArg Move.shift (within_closeBlock before.reverse outer)
  | case9 =>
    rw [startOperand_within (k := .expression k) (by rw [ExprContext.within]; rfl), startStatement]
    all_goals try assumption
    · rfl
    · cases k <;> simp_all [StatementContext.within]
  | _ => rfl

/-- A statement is followed by other phrases unless it is the phrase asked for. -/
theorem endStatement_within {k : StatementContext} (hk : k.Reached g p) (hg : g.Inner)
    (s : Statement) (t : Token) :
    (endStatement s k t).within σ t = endStatement s (k.within σ) t := by
  cases hk with
  | goal heq =>
    subst heq
    cases hg
  | @item before outer =>
    rw [endStatement, StatementContext.within, endStatement]
    split
    · rfl
    · exact startStatement_within (.item (s :: before) outer) t

theorem conclude_within {k : ConditionalContext} (hk : k.Reached g p) (hg : g.Inner)
    (c : Expr) (body : Block) (a : Alternative) (t : Token) :
    (conclude c body a k t).within σ t = conclude c body a (k.within σ) t := by
  fun_induction conclude c body a k t generalizing p with
  | case1 =>
    cases hk with
    | goal heq =>
      subst heq
      cases hg
  | case2 =>
    cases hk with
    | statement hk => exact endStatement_within hk hg _ _
  | case3 _ _ _ _ _ _ ih =>
    cases hk with
    | elseIf hk => exact ih hk

theorem close_within {k : ExprContext} (hk : k.Reached g p) (hg : g.Inner) (e : Expr) (t : Token) :
    (close e k t).within σ t = close e (k.within σ) t := by
  have hextend : ∀ {k : ExprContext} {p : List Token} (e : Expr), k.Reached g p →
      extend? e k t = none → extend? e (k.within σ) t = none := by
    intro k p e hk hnone
    rw [← extend?_within (hk.level_within hg), hnone]
    rfl
  fun_induction close e k t generalizing p with
  | case1 k e next hnext =>
    have hsome : (extend? e k t).map (ParseState.within σ) = extend? e (k.within σ) t :=
      extend?_within (hk.level_within hg) e t
    rw [hnext] at hsome
    rw [close.eq_def, ← hsome]
    rfl
  | case2 => rfl
  | case3 e op k hnone ih =>
    have hnone := hextend e hk hnone
    cases hk with
    | unary hk =>
      rw [ExprContext.within] at hnone ⊢
      rw [close, hnone, ih hk]
  | case4 e left op k hnone ih =>
    have hnone := hextend e hk hnone
    cases hk with
    | binary hk =>
      rw [ExprContext.within] at hnone ⊢
      rw [close, hnone, ih hk]
  | case5 e x k hnone ih =>
    have hnone := hextend e hk hnone
    cases hk with
    | assign hk =>
      rw [ExprContext.within] at hnone ⊢
      rw [close, hnone, ih hk]
  | case11 e constant x k hnone =>
    have hnone := hextend e hk hnone
    cases hk with
    | declaration hk =>
      rw [ExprContext.within] at hnone ⊢
      rw [close, hnone]
      exact endStatement_within hk hg _ _
  | case12 e k hnone =>
    have hnone := hextend e hk hnone
    cases hk with
    | expression hk =>
      rw [ExprContext.within] at hnone ⊢
      rw [close, hnone]
      exact endStatement_within hk hg _ _
  | case13 e k hnone =>
    have hnone := hextend e hk hnone
    cases hk with
    | returning hk =>
      rw [ExprContext.within] at hnone ⊢
      rw [close, hnone]
      exact endStatement_within hk hg _ _
  | case7 | case9 | case10 =>
    rename_i hnone
    have hnone := hextend _ hk hnone
    rw [ExprContext.within] at hnone ⊢
    rw [close, hnone]
    exact separator_within _ _ _
  | _ =>
    rename_i hnone
    have hnone := hextend _ hk hnone
    rw [ExprContext.within] at hnone ⊢
    rw [close, hnone]
    exact expect_within _ _

/-- **A step of the reader is the same step in all surroundings.** -/
theorem step_within {a : ParseState} (ha : a.Reached g p) (hg : g.Inner) (t : Token) :
    (a.step t).within σ t = (a.within σ).step t := by
  cases a with
  | operand k => exact startOperand_within (ExprContext.Reached.level_within ha hg) t
  | complete e k =>
    obtain ⟨q, ts, rfl, hk, -⟩ := ha
    exact close_within hk hg e t
  | firstArgument f k =>
    rw [step, within, step]
    split
    · rfl
    · exact startOperand_within rfl t
  | firstElement k =>
    rw [step, within, step]
    split
    · rfl
    · exact startOperand_within rfl t
  | firstKey k =>
    rw [step, within, step]
    split
    · rfl
    · exact identifier_within _
  | nextKey | memberName | nextParameter | declaredName => exact identifier_within _
  | colon | parametersOpen | ifOpen | whileOpen | forOpen | blockOpen =>
    exact expect_within _ _
  | firstParameter k =>
    rw [step, within, step, ← k.within_body]
    split
    · rfl
    · exact identifier_within _
  | parameterEnd before k =>
    rw [step, within, step, ← k.within_body]
    exact separator_within _ _ _
  | statement k => exact startStatement_within k t
  | functionStatement k =>
    cases t with
    | name x => rfl
    | _ => exact expect_within _ _
  | returnValue k =>
    obtain ⟨q, rfl, hk⟩ := ha
    rw [step, within, step]
    split
    · exact endStatement_within hk hg _ t
    · exact startOperand_within rfl t
  | ended s k =>
    obtain ⟨q, ts, rfl, hk, -⟩ := ha
    exact endStatement_within hk hg s t
  | declaredEquals x k =>
    rw [step, within, step, ← k.within_value]
    exact expect_within _ _
  | conditional k =>
    rw [step, within, step]
    split <;> rfl
  | afterConsequence c body k =>
    obtain ⟨q, ts, us, rfl, hk, -⟩ := ha
    rw [step, within, step]
    split
    · rfl
    · exact conclude_within hk hg c body .absent t
  | afterElse c body k =>
    rw [step, within, step]
    split
    · rfl
    · exact expect_within _ _
  | concluded c body a k =>
    obtain ⟨q, ts, rfl, hk, -⟩ := ha
    exact conclude_within hk hg c body a t
  | forStart k =>
    rw [step, within, step]
    split
    · rfl
    · split
      · rfl
      · exact startOperand_within rfl t
  | forCondition start k =>
    rw [step, within, step]
    split
    · rfl
    · exact startOperand_within rfl t
  | forUpdate start c k =>
    rw [step, within, step]
    split
    · rfl
    · exact startOperand_within rfl t
  | finished s => rfl

/-! ## Runs -/

theorem Takes.within {a b : ParseState} {ts : List Token} (h : Takes a ts b) (ha : a.Reached g p)
    (hg : g.Inner) (σ : Surroundings) : Takes (a.within σ) ts (b.within σ) := by
  induction h generalizing p with
  | nil => exact .nil _
  | @cons a b c t ts hstep hrest ih =>
    have hb : b.Reached g (p ++ [t]) := (Takes.cons hstep (.nil b)).reached ha
    refine .cons ?_ (ih hb)
    rw [← step_within ha hg, hstep, Move.within]

end ParseState

open ParseState

/-- **An expression is read alike wherever it stands.**  If it is accepted alone up to a token, its
tokens are taken in every place that takes any expression, and that token is answered as behind an
expression there. -/
theorem expression_within {ts : List Located} {stop : Located} {e : Expr}
    (h : (Goal.expression Level.assignment).parse (ts ++ [stop]) = .parsed (.expression e) [stop])
    {k : ExprContext} (hk : k.level = Level.assignment) :
    ∃ b, Takes (.operand k) (ts.map Located.token) b ∧
      b.step stop.token = (ParseState.complete e k).step stop.token := by
  obtain ⟨taken, b, hsplit, htakes, hdone⟩ := run_parsed_takes h
  obtain ⟨rfl, -⟩ := List.append_inj' hsplit rfl
  have hstart : (ParseState.operand (.goal Level.assignment)).Reached
      (.expression Level.assignment) [] := .goal (Nat.zero_le _) rfl
  have hwithin := htakes.within hstart .expression ⟨k, .goal, hk⟩
  refine ⟨_, hwithin, ?_⟩
  rw [← step_within (htakes.reached hstart) .expression, show b.step stop.token = _ from hdone]
  rfl

theorem blockOpen_reached : (ParseState.blockOpen .goal).Reached .block [] := .goal rfl

def Surroundings.ofBlock (k : BlockContext) : Surroundings := ⟨.goal Level.assignment, k, rfl⟩

/-- **A block is read alike wherever it stands.** -/
theorem block_within {ts : List Token} {body : Block}
    (h : Takes (.blockOpen .goal) ts (.finished (.block body))) (k : BlockContext) :
    Takes (.blockOpen k) ts (closeBlock body k) :=
  h.within blockOpen_reached .block (.ofBlock k)

/-- **A token that is refused in a block is refused wherever the block stands**, with as many braces
open as there are around the token. -/
theorem block_refused_within {ts : List Token} {b : ParseState} {x : Expectation}
    (h : Takes (.blockOpen .goal) ts b) (hfail : b.step t = .fail x) {k : BlockContext}
    (hk : k.frames = []) :
    ∃ c, Takes (.blockOpen k) ts c ∧ c.step t = .fail x ∧
      braceCount c.frames = braceCount b.frames := by
  have hwithin : Takes (.blockOpen k) ts (b.within (.ofBlock k)) :=
    h.within blockOpen_reached .block (.ofBlock k)
  refine ⟨_, hwithin, ?_, ?_⟩
  · rw [← step_within (h.reached blockOpen_reached) .block, hfail]
    rfl
  · rw [← hwithin.foldl_depthAfter, ← h.foldl_depthAfter, ParseState.frames, ParseState.frames, hk]
    rfl

end Scriptlet
