import Scriptlet.Parse.State

/-!
# Reading a phrase

`ParseState.run` feeds tokens to a state until the goal is reached or a token is refused, and
reports what is left: the refused token, or the first token after the phrase, is the first one of
the rest.  Past the end of the list the reader sees the end of input, which is never taken
(`step_endOfInput`), at a position of its own.

* `Goal.parse`: reads a phrase of the kind asked for from the front of a token list.
* `Goal.parse_isSuffix`: what is left is a suffix of the tokens given.
* `Goal.parse_statement_parsed`: a statement takes at least one token.
-/

namespace Scriptlet

/-- The phrase read, or the first error, with the tokens left. -/
inductive Outcome where
  | parsed (s : Statement) (rest : List Located)
  | failed (error : SyntaxError) (rest : List Located)

namespace Outcome

def rest : Outcome → List Located
  | .parsed _ rest => rest
  | .failed _ rest => rest

end Outcome

/-- What is read past the end of a token list. -/
def Located.exhausted : Located := ⟨.endOfInput, ⟨0, 0⟩⟩

namespace ParseState

/-- Reads on from a state. -/
def run (state : ParseState) : List Located → Outcome
  | [] =>
    match state.step .endOfInput with
    | .done s => .parsed s []
    | .fail expected => .failed ⟨expected, .endOfInput, Located.exhausted.position⟩ []
    | .shift _ => .failed ⟨.expression, .endOfInput, Located.exhausted.position⟩ []
  | t :: rest =>
    match state.step t.token with
    | .shift next => next.run rest
    | .done s => .parsed s (t :: rest)
    | .fail expected => .failed ⟨expected, t.token, t.position⟩ (t :: rest)

end ParseState

/-- A phrase that can be asked for. -/
inductive Goal where
  | expression (level : Level)
  | statement
  | block
  | conditional

namespace Goal

def start : Goal → ParseState
  | .expression level => .operand (.goal level)
  | .statement => .statement .goal
  | .block => .blockOpen .goal
  | .conditional => .conditional .goal

/-- Reads the phrase from the front of a token list. -/
def parse (goal : Goal) (tokens : List Located) : Outcome := goal.start.run tokens

end Goal

namespace ParseState

/-! ## The end of input -/

theorem expect_endOfInput (s : Symbol) (next : ParseState) :
    expect s next .endOfInput = .fail (.token (.symbol s)) := by
  simp [expect]

theorem separator_endOfInput (closing : Symbol) (more last : ParseState) :
    separator closing more last .endOfInput = .fail (.commaOr closing) := by
  simp [separator]

theorem startStatement_endOfInput (k : StatementContext) :
    startStatement k .endOfInput = .fail .expression := rfl

theorem endStatement_endOfInput (s : Statement) (k : StatementContext) (next : ParseState) :
    endStatement s k .endOfInput ≠ .shift next := by
  cases k <;> simp [endStatement, startStatement_endOfInput]

theorem conclude_endOfInput (c : Expr) (b : Block) (a : Alternative) (k : ConditionalContext)
    (next : ParseState) : conclude c b a k .endOfInput ≠ .shift next := by
  fun_induction conclude c b a k .endOfInput with
  | case1 => simp
  | case2 => exact endStatement_endOfInput _ _ _
  | case3 => assumption

theorem close_endOfInput (e : Expr) (k : ExprContext) (next : ParseState) :
    close e k .endOfInput ≠ .shift next := by
  fun_induction close e k .endOfInput <;>
    first
      | assumption
      | exact endStatement_endOfInput _ _ _
      | simp_all [extend?, BinaryOp.ofToken?, expect_endOfInput, separator_endOfInput]

/-- **The end of input is never taken.** -/
theorem step_endOfInput (state next : ParseState) : state.step .endOfInput ≠ .shift next := by
  cases state with
  | complete e k => exact close_endOfInput e k next
  | ended s k => exact endStatement_endOfInput s k next
  | concluded c b a k => exact conclude_endOfInput c b a k next
  | afterConsequence c b k =>
    simpa [step] using conclude_endOfInput c b .absent k next
  | returnValue k =>
    simpa [step] using endStatement_endOfInput (.returning none) k next
  | _ =>
    simp [step, startOperand, UnaryOp.ofToken?, identifier, expect_endOfInput,
      separator_endOfInput, startStatement_endOfInput]

/-! ## What is left -/

theorem run_isSuffix (state : ParseState) (ts : List Located) : (state.run ts).rest <:+ ts := by
  fun_induction run state ts with
  | case4 state t rest next h ih => exact List.IsSuffix.trans ih (List.suffix_cons t rest)
  | _ => exact List.suffix_rfl

theorem startOperand_ne_done (k : ExprContext) (t : Token) (s : Statement) :
    startOperand k t ≠ .done s := by
  fun_cases startOperand k t <;> simp

theorem startStatement_ne_done (k : StatementContext) (t : Token) (s : Statement) :
    startStatement k t ≠ .done s := by
  fun_cases startStatement k t <;> simp [startOperand_ne_done]

end ParseState

namespace Goal

theorem parse_isSuffix (goal : Goal) (ts : List Located) : (goal.parse ts).rest <:+ ts :=
  goal.start.run_isSuffix ts

/-- A statement takes at least one token. -/
theorem parse_statement_parsed {ts rest : List Located} {s : Statement}
    (h : statement.parse ts = .parsed s rest) : rest.length < ts.length := by
  cases ts with
  | nil =>
    simp [parse, start, ParseState.run, ParseState.step, ParseState.startStatement_endOfInput] at h
  | cons t ts =>
    rw [parse, start, ParseState.run] at h
    split at h
    · next next hstep =>
      have := (next.run_isSuffix ts).length_le
      rw [h] at this
      simp only [Outcome.rest] at this
      simp only [List.length_cons]
      omega
    · next hstep => exact absurd hstep (ParseState.startStatement_ne_done .goal t.token _)
    · exact absurd h (by simp)

end Goal

end Scriptlet
