import Scriptlet.Parse.Outcome

/-!
# Reading a program

A program is read statement by statement.  After a syntax error reading resumes at a plausible
statement (`synchronize`), so every faulty statement is reported and the sound ones are kept.

Resumption counts the blocks that the faulty statement left open.  Inside a block everything up to
the `}` that closes the outermost one is skipped, and one semicolon after it.  Outside of blocks
reading resumes after the next semicolon or `}`, or in front of the next keyword that starts a
statement.  A statement that failed on its very first token has that token skipped, so reading
always moves on (`length_resume_lt`).
-/

namespace Scriptlet

/-- The statements of a program that could be read, and the errors of the others. -/
structure Parsed where
  statements : Block
  errors : List SyntaxError

namespace Parsed

def empty : Parsed := ⟨[], []⟩

def withStatement (s : Statement) (p : Parsed) : Parsed :=
  { p with statements := s :: p.statements }

def withError (e : SyntaxError) (p : Parsed) : Parsed := { p with errors := e :: p.errors }

end Parsed

def Keyword.startsStatement : Keyword → Bool
  | .letWord | .constWord | .ifWord | .whileWord | .forWord | .fnWord | .returnWord => true
  | _ => false

/-- The number of braces open after the tokens; a `}` that closes nothing does not count. -/
def openBraces (tokens : List Located) : Nat :=
  tokens.foldl
    (fun depth t =>
      match t.token with
      | .symbol .leftBrace => depth + 1
      | .symbol .rightBrace => depth - 1
      | _ => depth) 0

def skipSemicolon : List Located → List Located
  | [] => []
  | t :: rest => if t.token = .symbol .semicolon then rest else t :: rest

/-- Skips to where reading resumes.  `depth` counts the open braces, and `skipped` says whether the
faulty statement got past a token other than a brace. -/
def synchronize (depth : Nat) (skipped : Bool) : List Located → List Located
  | [] => []
  | t :: rest =>
    match t.token with
    | .endOfInput => t :: rest
    | .symbol .leftBrace => synchronize (depth + 1) skipped rest
    | .symbol .rightBrace =>
      if depth ≤ 1 then skipSemicolon rest else synchronize (depth - 1) skipped rest
    | .symbol .semicolon => if depth = 0 then rest else synchronize depth true rest
    | .keyword k =>
      if k.startsStatement && skipped && depth == 0 then t :: rest
      else synchronize depth true rest
    | _ => synchronize depth true rest

/-- Where reading resumes after a statement of `tokens` failed with `rest` left. -/
def resume (tokens rest : List Located) : List Located :=
  let consumed := tokens.take (tokens.length - rest.length)
  synchronize (openBraces consumed) (!consumed.isEmpty) rest

/-! ## Progress -/

theorem length_skipSemicolon_le (ts : List Located) : (skipSemicolon ts).length ≤ ts.length := by
  fun_cases skipSemicolon ts <;> simp

theorem length_synchronize_le (depth : Nat) (skipped : Bool) (ts : List Located) :
    (synchronize depth skipped ts).length ≤ ts.length := by
  fun_induction synchronize depth skipped ts with
  | case1 => exact Nat.le_refl _
  | case2 => exact Nat.le_refl _
  | case4 depth skipped t rest =>
    have hskip := length_skipSemicolon_le rest
    simp only [List.length_cons]
    omega
  | _ => simp only [List.length_cons, Nat.le_refl] <;> omega

/-- With nothing skipped yet, the first token is skipped unless it ends the input. -/
theorem length_synchronize_lt {t : Located} (h : t.token ≠ .endOfInput) (depth : Nat)
    (rest : List Located) : (synchronize depth false (t :: rest)).length < (t :: rest).length := by
  have hskip := length_skipSemicolon_le rest
  have hopen := length_synchronize_le (depth + 1) false rest
  have hclose := length_synchronize_le (depth - 1) false rest
  have hother := length_synchronize_le depth true rest
  simp only [synchronize, List.length_cons, Bool.and_false, Bool.false_and]
  split
  · contradiction
  · omega
  · split <;> omega
  · split <;> omega
  · simpa using Nat.lt_succ_of_le hother
  · omega

/-- **Reading moves on after an error.** -/
theorem length_resume_lt {t : Located} {ts rest : List Located} (h : t.token ≠ .endOfInput)
    (hs : rest <:+ t :: ts) : (resume (t :: ts) rest).length < (t :: ts).length := by
  have hle := length_synchronize_le
  rcases Nat.lt_or_ge rest.length (t :: ts).length with hlt | hge
  · exact Nat.lt_of_le_of_lt (hle _ _ rest) hlt
  · obtain rfl : rest = t :: ts := hs.eq_of_length_le hge
    simpa [resume, openBraces] using length_synchronize_lt h 0 ts

/-! ## Programs -/

/-- Reads statements up to the end of input. -/
def parseProgram : List Located → Parsed
  | [] => Parsed.empty
  | t :: ts =>
    if _hend : t.token = .endOfInput then Parsed.empty
    else
      match _h : Goal.statement.parse (t :: ts) with
      | .parsed s rest => (parseProgram rest).withStatement s
      | .failed e rest => (parseProgram (resume (t :: ts) rest)).withError e
termination_by tokens => tokens.length
decreasing_by
  · exact Goal.parse_statement_parsed _h
  · have hs := Goal.parse_isSuffix .statement (t :: ts)
    rw [_h] at hs
    exact length_resume_lt _hend hs

end Scriptlet
