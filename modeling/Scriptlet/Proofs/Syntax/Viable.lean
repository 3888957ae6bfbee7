import Scriptlet.Proofs.Syntax.Sequence

/-!
# Errors stand at the earliest wrong token

The reader fails on a token only where no phrase can go on with it, and it never looks further: what
was taken before has a completion, and the token is refused whatever follows it.

That every state has a completion is shown along its context.  A layer of the context is closed by a
token that extends no expression, and then the layer around it is closed (`close_finishes` and its
companions go through the four kinds of contexts together).

* `ParseState.viable`: **every state has a completion**.
* `statement_fails_earliest`: an error of a statement names the first token that is left, stays the
  same with any other tokens behind it, and what was taken is the start of some statement.
-/

namespace Scriptlet

namespace ParseState

/-! ## Runs that fail -/

/-- The token that the reader sees next, with its position. -/
def front (rest : List Located) : Located := rest.head?.getD .exhausted

theorem run_failed_takes {state : ParseState} {ts rest : List Located} {e : SyntaxError}
    (h : state.run ts = .failed e rest) :
    ∃ taken b, ts = taken ++ rest ∧ Takes state (taken.map Located.token) b ∧
      b.step (peek rest) = .fail e.expected ∧ e.found = (front rest).token ∧
      e.position = (front rest).position := by
  fun_induction run state ts with
  | case1 => cases h
  | case2 state expected hstep =>
    cases h
    exact ⟨[], state, rfl, .nil state, hstep, rfl, rfl⟩
  | case3 state next hstep => exact absurd hstep (step_endOfInput state next)
  | case4 state t ts next hstep ih =>
    obtain ⟨taken, b, rfl, htakes, hfail⟩ := ih h
    exact ⟨t :: taken, b, rfl, .cons hstep htakes, hfail⟩
  | case5 => cases h
  | case6 state t ts expected hstep =>
    cases h
    exact ⟨[], state, rfl, .nil state, hstep, rfl, rfl⟩

theorem Takes.run_failed {a b : ParseState} {taken : List Located} {t : Located} {x : Expectation}
    (h : Takes a (taken.map Located.token) b) (hfail : b.step t.token = .fail x)
    (rest : List Located) :
    a.run (taken ++ t :: rest) = .failed ⟨x, t.token, t.position⟩ (t :: rest) := by
  rw [h.run_eq rfl, run, hfail]

/-! ## Completions -/

/-- Some tokens lead on from the state to a place where the goal is reached. -/
def Viable (a : ParseState) : Prop :=
  ∃ q b s, Takes a q b ∧ b.step .endOfInput = .done s

theorem Viable.of_step {a b : ParseState} (t : Token) (h : a.step t = .shift b)
    (hb : b.Viable) : a.Viable := by
  obtain ⟨q, c, s, htakes, hdone⟩ := hb
  exact ⟨t :: q, c, s, .cons h htakes, hdone⟩

/-- The token extends no expression and no `if`. -/
def Idle (t : Token) : Prop := t.grip = Level.assignment ∧ t ≠ .keyword .elseWord

/-- A state that answers in this way can be completed, without a token that extends something. -/
def Finishes (answer : Token → Move) : Prop :=
  (∃ s, answer .endOfInput = .done s) ∨ ∃ t b, Idle t ∧ answer t = .shift b ∧ b.Viable

theorem Finishes.viable {a : ParseState} (h : Finishes a.step) : a.Viable := by
  rcases h with ⟨s, hdone⟩ | ⟨t, b, _, hshift, hb⟩
  · exact ⟨[], a, s, .nil a, hdone⟩
  · exact .of_step t hshift hb

theorem Finishes.congr {answer answer' : Token → Move} (h : Finishes answer)
    (heq : ∀ t, Idle t → answer' t = answer t) : Finishes answer' := by
  rcases h with ⟨s, hdone⟩ | ⟨t, b, ht, hshift, hb⟩
  · exact Or.inl ⟨s, (heq .endOfInput ⟨rfl, nofun⟩).trans hdone⟩
  · exact Or.inr ⟨t, b, ht, (heq t ht).trans hshift, hb⟩

/-- A symbol that extends nothing closes a layer. -/
theorem Finishes.of_symbol {answer : Token → Move} (s : Symbol) {b : ParseState}
    (h : answer (.symbol s) = .shift b) (hb : b.Viable)
    (hs : (Token.symbol s).grip = Level.assignment := by rfl) : Finishes answer :=
  Or.inr ⟨.symbol s, b, ⟨hs, nofun⟩, h, hb⟩

theorem viable_complete {e : Expr} {k : ExprContext} (h : Finishes (close e k)) :
    (complete e k).Viable :=
  Finishes.viable (a := complete e k) h

theorem viable_ended {s : Statement} {k : StatementContext} (h : Finishes (endStatement s k)) :
    (ended s k).Viable :=
  Finishes.viable (a := ended s k) h

theorem viable_afterConsequence {c : Expr} {body : Block} {k : ConditionalContext}
    (h : Finishes (conclude c body .absent k)) : (afterConsequence c body k).Viable :=
  Finishes.viable (h.congr fun _ ht => if_neg ht.2)

theorem viable_concluded {c : Expr} {body : Block} {a : Alternative} {k : ConditionalContext}
    (h : Finishes (conclude c body a k)) : (concluded c body a k).Viable :=
  Finishes.viable (a := concluded c body a k) h

/-- An empty block is read once the context of the block can be closed around it. -/
theorem viable_blockOpen {k : BlockContext} (h : (closeBlock [] k).Viable) :
    (blockOpen k).Viable :=
  .of_step (.symbol .leftBrace) rfl (.of_step (.symbol .rightBrace) rfl h)

theorem viable_forUpdate {start : Option Statement} {c : Option Expr} {k : StatementContext}
    (h : (closeBlock [] (.forBody start c none k)).Viable) : (forUpdate start c k).Viable :=
  .of_step (.symbol .rightParen) rfl (viable_blockOpen h)

theorem viable_forCondition {start : Option Statement} {k : StatementContext}
    (h : (closeBlock [] (.forBody start none none k)).Viable) : (forCondition start k).Viable :=
  .of_step (.symbol .semicolon) rfl (viable_forUpdate h)

mutual

theorem close_finishes : ∀ (k : ExprContext) (e : Expr), Finishes (close e k)
  | .goal _, e => Or.inl ⟨.expression e, rfl⟩
  | .unary op k, e =>
    (close_finishes k (.unary op e)).congr fun _ ht => close_unary (ht.1 ▸ Nat.zero_le _)
  | .binary a op k, e =>
    (close_finishes k (.binary op a e)).congr fun _ ht => close_binary (ht.1 ▸ Nat.zero_le _)
  | .assign x k, e =>
    (close_finishes k (.assign x e)).congr fun _ ht => close_assign (Nat.le_of_eq ht.1)
  | .group k, e => .of_symbol .rightParen rfl (viable_complete (close_finishes k e))
  | .argument f before k, e =>
    .of_symbol .rightParen rfl (viable_complete (close_finishes k (.call f (e :: before).reverse)))
  | .index a k, e => .of_symbol .rightBracket rfl (viable_complete (close_finishes k (.index a e)))
  | .element before k, e =>
    .of_symbol .rightBracket rfl (viable_complete (close_finishes k (.array (e :: before).reverse)))
  | .property before key k, e =>
    .of_symbol .rightBrace rfl
      (viable_complete (close_finishes k (.object ((key, e) :: before).reverse)))
  | .declaration constant x k, e =>
    (endStatement_finishes k (.declare constant x e)).congr fun t ht => by
      rw [close, extend?_eq_none (.inr ht.1)]
  | .expression k, e =>
    (endStatement_finishes k (.expression e)).congr fun t ht => by
      rw [close, extend?_eq_none (.inr ht.1)]
  | .returning k, e =>
    (endStatement_finishes k (.returning (some e))).congr fun t ht => by
      rw [close, extend?_eq_none (.inr ht.1)]
  | .ifCondition k, e =>
    .of_symbol .rightParen rfl
      (viable_blockOpen (viable_afterConsequence (conclude_finishes k e [] .absent)))
  | .whileCondition k, e =>
    .of_symbol .rightParen rfl
      (viable_blockOpen (viable_ended (endStatement_finishes k (.whileLoop e []))))
  | .forDeclaration x k, e =>
    .of_symbol .semicolon rfl (viable_forCondition (viable_ended (endStatement_finishes k _)))
  | .forStart k, e =>
    .of_symbol .semicolon rfl (viable_forCondition (viable_ended (endStatement_finishes k _)))
  | .forCondition start k, e =>
    .of_symbol .semicolon rfl (viable_forUpdate (viable_ended (endStatement_finishes k _)))
  | .forUpdate start c k, e =>
    .of_symbol .rightParen rfl (viable_blockOpen (viable_ended (endStatement_finishes k _)))

theorem endStatement_finishes : ∀ (k : StatementContext) (s : Statement),
    Finishes (endStatement s k)
  | .goal, s => Or.inl ⟨s, rfl⟩
  | .item before k, s => .of_symbol .rightBrace rfl (closeBlock_viable k (s :: before).reverse)

theorem closeBlock_viable : ∀ (k : BlockContext) (body : Block), (closeBlock body k).Viable
  | .goal, body => ⟨[], _, .block body, .nil _, rfl⟩
  | .consequence c k, body => viable_afterConsequence (conclude_finishes k c body .absent)
  | .alternative c first k, body => viable_concluded (conclude_finishes k c first (.block body))
  | .whileBody c k, body => viable_ended (endStatement_finishes k (.whileLoop c body))
  | .forBody start c u k, body => viable_ended (endStatement_finishes k (.forLoop start c u body))
  | .function x parameters k, body =>
    viable_ended (endStatement_finishes k (.function x parameters body))
  | .lambda parameters k, body => viable_complete (close_finishes k (.function parameters body))

theorem conclude_finishes : ∀ (k : ConditionalContext) (c : Expr) (body : Block)
    (a : Alternative), Finishes (conclude c body a k)
  | .goal, c, body, a => Or.inl ⟨.ifElse c body a, rfl⟩
  | .statement k, c, body, a => endStatement_finishes k (.ifElse c body a)
  | .elseIf outer first k, c, body, a => conclude_finishes k outer first (.elseIf c body a)

end

/-! ## Every state -/

theorem viable_operand (k : ExprContext) : (operand k).Viable :=
  .of_step (.keyword .nullWord) rfl (viable_complete (close_finishes k _))

theorem viable_colon (before : List (String × Expr)) (key : String) (k : ExprContext) :
    (colon before key k).Viable :=
  .of_step (.symbol .colon) rfl (viable_operand _)

theorem viable_firstParameter (k : FunctionContext) : (firstParameter k).Viable :=
  .of_step (.symbol .rightParen) rfl (viable_blockOpen (closeBlock_viable _ _))

theorem viable_parameterEnd (before : List String) (k : FunctionContext) :
    (parameterEnd before k).Viable :=
  .of_step (.symbol .rightParen) rfl (viable_blockOpen (closeBlock_viable _ _))

theorem viable_declaredEquals (x : String) (k : DeclarationContext) :
    (declaredEquals x k).Viable :=
  .of_step (.symbol .equals) rfl (viable_operand _)

theorem viable_ifOpen (k : ConditionalContext) : (ifOpen k).Viable :=
  .of_step (.symbol .leftParen) rfl (viable_operand _)

/-- **Every state has a completion.** -/
theorem viable (a : ParseState) : a.Viable := by
  cases a with
  | operand k => exact viable_operand k
  | complete e k => exact viable_complete (close_finishes k e)
  | firstArgument f k =>
    exact .of_step (.symbol .rightParen) rfl (viable_complete (close_finishes k _))
  | firstElement k =>
    exact .of_step (.symbol .rightBracket) rfl (viable_complete (close_finishes k _))
  | firstKey k => exact .of_step (.symbol .rightBrace) rfl (viable_complete (close_finishes k _))
  | nextKey before k => exact .of_step (.name "x") rfl (viable_colon before "x" k)
  | colon before key k => exact viable_colon before key k
  | memberName a k => exact .of_step (.name "x") rfl (viable_complete (close_finishes k _))
  | parametersOpen k => exact .of_step (.symbol .leftParen) rfl (viable_firstParameter k)
  | firstParameter k => exact viable_firstParameter k
  | nextParameter before k => exact .of_step (.name "x") rfl (viable_parameterEnd _ k)
  | parameterEnd before k => exact viable_parameterEnd before k
  | statement k => exact .of_step (.keyword .nullWord) rfl (viable_complete (close_finishes _ _))
  | functionStatement k =>
    exact .of_step (.symbol .leftParen) rfl (viable_firstParameter (.lambda (.expression k)))
  | returnValue k =>
    exact .of_step (.keyword .nullWord) rfl (viable_complete (close_finishes _ _))
  | ended s k => exact viable_ended (endStatement_finishes k s)
  | declaredName k => exact .of_step (.name "x") rfl (viable_declaredEquals "x" k)
  | declaredEquals x k => exact viable_declaredEquals x k
  | conditional k => exact .of_step (.keyword .ifWord) rfl (viable_ifOpen k)
  | ifOpen k => exact viable_ifOpen k
  | afterConsequence c body k => exact viable_afterConsequence (conclude_finishes k c body .absent)
  | afterElse c body k => exact .of_step (.keyword .ifWord) rfl (viable_ifOpen _)
  | concluded c body a k => exact viable_concluded (conclude_finishes k c body a)
  | whileOpen k => exact .of_step (.symbol .leftParen) rfl (viable_operand _)
  | forOpen k =>
    exact .of_step (.symbol .leftParen) rfl <|
      .of_step (.symbol .semicolon) rfl (viable_forCondition (closeBlock_viable _ _))
  | forStart k =>
    exact .of_step (.symbol .semicolon) rfl (viable_forCondition (closeBlock_viable _ _))
  | forCondition start k => exact viable_forCondition (closeBlock_viable _ _)
  | forUpdate start c k => exact viable_forUpdate (closeBlock_viable _ _)
  | blockOpen k => exact viable_blockOpen (closeBlock_viable k [])
  | finished s => exact ⟨[], _, s, .nil _, rfl⟩

end ParseState

open ParseState

/-! ## Statements -/

/-- What was taken before an error is the start of some statement. -/
theorem exists_completion {p : List Located} {b : ParseState}
    (h : Takes (.statement .goal) (p.map Located.token) b) :
    ∃ q s, Goal.statement.parse (p ++ q) = .parsed s [] := by
  obtain ⟨q, c, s, htakes, hdone⟩ := b.viable
  obtain ⟨located, rfl⟩ := exists_located q
  refine ⟨located, s, ?_⟩
  have hall : Takes (.statement .goal) ((p ++ located).map Located.token) c := by
    rw [List.map_append]
    exact h.append htakes
  have hrun : Goal.statement.parse (p ++ located ++ []) = .parsed s [] := hall.run_parsed hdone
  rwa [List.append_nil] at hrun

/-- **An error stands at the earliest wrong token.**  When a statement fails, the error names the
first token that is left and its position, or the end of input at `0:0` if nothing is left.  With
other tokens behind that token the statement fails in the same way, and what was taken before it is
the start of some statement.  A statement that is read does not depend on what follows the token
behind it. -/
theorem statement_fails_earliest :
    (∀ (ts rest : List Located) (e : SyntaxError), Goal.statement.parse ts = .failed e rest →
      ∃ p, ts = p ++ rest ∧
        (∀ t r, rest = t :: r → e.found = t.token ∧ e.position = t.position ∧
          ∀ r', Goal.statement.parse (p ++ t :: r') = .failed e (t :: r')) ∧
        (rest = [] → e.found = .endOfInput ∧ e.position = ⟨0, 0⟩) ∧
        (e.found = .endOfInput ↔ rest = [] ∨ ∃ t r, rest = t :: r ∧ t.token = .endOfInput) ∧
        ∃ q s, Goal.statement.parse (p ++ q) = .parsed s []) ∧
    ∀ (p r : List Located) (t : Located) (s : Statement),
      Goal.statement.parse (p ++ t :: r) = .parsed s (t :: r) →
      ∀ r', Goal.statement.parse (p ++ t :: r') = .parsed s (t :: r') := by
  constructor
  · intro ts rest e h
    obtain ⟨p, b, rfl, htakes, hfail, hfound, hposition⟩ := run_failed_takes h
    refine ⟨p, rfl, ?_, ?_, ?_, exists_completion htakes⟩
    · rintro t r rfl
      have herror : e = ⟨e.expected, t.token, t.position⟩ := by
        rw [← show e.found = t.token from hfound, ← show e.position = t.position from hposition]
      refine ⟨hfound, hposition, fun r' => ?_⟩
      rw [herror]
      exact htakes.run_failed hfail r'
    · rintro rfl
      exact ⟨hfound, hposition⟩
    · cases rest with
      | nil => exact ⟨fun _ => Or.inl rfl, fun _ => hfound⟩
      | cons t r => simp [hfound, front]
  · intro p r t s h r'
    obtain ⟨taken, b, hsplit, htakes, hdone⟩ := run_parsed_takes h
    rw [List.append_cancel_right hsplit]
    exact htakes.run_parsed hdone

/-- The tokens of `f([x, `. -/
def openList : List Located :=
  [⟨.name "f", ⟨1, 1⟩⟩, ⟨.symbol .leftParen, ⟨1, 2⟩⟩, ⟨.symbol .leftBracket, ⟨1, 3⟩⟩,
    ⟨.name "x", ⟨1, 4⟩⟩, ⟨.symbol .comma, ⟨1, 5⟩⟩]

theorem statement_fails_earliest_openList :
    let wrong : Located := ⟨.symbol .rightParen, ⟨1, 7⟩⟩
    let e : SyntaxError := ⟨.expression, .symbol .rightParen, ⟨1, 7⟩⟩
    let twoNames : List Located := [⟨.name "f", ⟨1, 1⟩⟩, ⟨.name "x", ⟨1, 3⟩⟩]
    Goal.statement.parse (openList ++ [wrong]) = .failed e [wrong] ∧
      (∀ r, Goal.statement.parse (openList ++ wrong :: r) = .failed e (wrong :: r)) ∧
      (∃ q s, Goal.statement.parse (openList ++ q) = .parsed s []) ∧
      Goal.statement.parse twoNames = .parsed (.expression (.name "f")) twoNames.tail ∧
      ∀ r, Goal.statement.parse (⟨.name "f", ⟨1, 1⟩⟩ :: ⟨.name "x", ⟨1, 3⟩⟩ :: r) =
        .parsed (.expression (.name "f")) (⟨.name "x", ⟨1, 3⟩⟩ :: r) := by
  intro wrong e twoNames
  have hfailed : Goal.statement.parse (openList ++ [wrong]) = .failed e [wrong] := rfl
  have hread : Goal.statement.parse twoNames =
    .parsed (.expression (.name "f")) twoNames.tail := rfl
  obtain ⟨hearliest, hindependent⟩ := statement_fails_earliest
  obtain ⟨p, hsplit, hsame, _, _, hviable⟩ := hearliest _ _ _ hfailed
  rw [← List.append_cancel_right hsplit] at hsame hviable
  exact ⟨hfailed, (hsame wrong [] rfl).2.2, hviable, hread,
    hindependent [⟨.name "f", ⟨1, 1⟩⟩] _ _ _ hread⟩

end Scriptlet
