import Scriptlet.Source.Token

/-!
# Pieces of a text

A text is cut into pieces from left to right: runs of blanks, comments, tokens, and stretches that
are no token.  A piece is never empty, and the pieces laid end to end are the text again
(`flatMap_pieces`).

* A name or keyword, a number and a run of blanks extend as far as they can.
* Two characters that spell a symbol together are that symbol; `//` starts a comment, which ends
  before the next line feed.
* A quoted text ends at the next quote of its own kind.  A backslash takes the next character along,
  but never a line feed: there, and at the end of the text, an open quote is an **unterminated**
  piece.
* Any other character is an **unexpected** piece of its own.
-/

namespace Scriptlet

/-- What a piece of the source is. -/
inductive PieceKind where
  | skipped
  | token (t : Token)
  | unexpected
  | unterminated
  deriving DecidableEq

/-- A piece covers the characters `head :: tail`. -/
structure Piece where
  kind : PieceKind
  head : Char
  tail : List Char
  deriving DecidableEq

namespace Piece

def text (p : Piece) : List Char := p.head :: p.tail

def isBlank (c : Char) : Bool :=
  c == ' ' || c == '\t' || c == '\r' || c == '\n' || c == '\x0c'

def isNameStart (c : Char) : Bool := c.isAlpha || c == '_'

def isNameChar (c : Char) : Bool := c.isAlphanum || c == '_'

def isQuote (c : Char) : Bool := c == '\x22' || c == '\x27'

/-- The token of a run of name characters. -/
def wordToken (word : List Char) : Token :=
  match Keyword.ofSpelling? (String.ofList word) with
  | some k => .keyword k
  | none => .name (String.ofList word)

/-! ## Quoted texts -/

/-- What follows an opening quote: the text read, and whether its closing quote comes next. -/
structure Quoted where
  body : List Char
  closed : Bool

def Quoted.after (front : List Char) (q : Quoted) : Quoted := ⟨front ++ q.body, q.closed⟩

/-- Reads to the closing `quote`. -/
def readQuoted (quote : Char) : List Char → Quoted
  | [] => ⟨[], false⟩
  | [c] => if c = quote then ⟨[], true⟩ else ⟨[c], false⟩
  | c :: d :: r =>
    if c = quote then ⟨[], true⟩
    else if c = '\\' then
      if d = '\n' then ⟨[c], false⟩ else (readQuoted quote r).after [c, d]
    else (readQuoted quote (d :: r)).after [c]

/-- The characters covered after the opening quote. -/
def Quoted.covered (quote : Char) (q : Quoted) : List Char :=
  if q.closed then q.body ++ [quote] else q.body

theorem Quoted.covered_after (quote : Char) (front : List Char) (q : Quoted) :
    (q.after front).covered quote = front ++ q.covered quote := by
  cases h : q.closed <;> simp [covered, after, h]

theorem readQuoted_isPrefix (quote : Char) (cs : List Char) :
    (readQuoted quote cs).covered quote <+: cs := by
  fun_induction readQuoted quote cs with
  | case1 => exact List.nil_prefix
  | case2 => simp [Quoted.covered]
  | case3 c h => simp [Quoted.covered]
  | case4 d r => simp [Quoted.covered]
  | case5 r h => simp [Quoted.covered]
  | case6 d r h hd ih =>
    rw [Quoted.covered_after]
    simpa [List.prefix_cons_iff] using ih
  | case7 c d r h hc ih =>
    rw [Quoted.covered_after]
    simpa [List.prefix_cons_iff] using ih

/-! ## Scanning -/

/-- The point and the digits after it, if `cs` starts with a point that a digit follows. -/
def fraction : List Char → List Char
  | '.' :: cs =>
    if (cs.takeWhile Char.isDigit).isEmpty then [] else '.' :: cs.takeWhile Char.isDigit
  | _ => []

/-- The number that starts with the digit `c`. -/
def numberPiece (c : Char) (cs : List Char) : Piece :=
  let whole := cs.takeWhile Char.isDigit
  let part := fraction (cs.dropWhile Char.isDigit)
  ⟨.token (.number (Decimal.ofDigits (c :: whole) part.tail).toBinary64), c, whole ++ part⟩

/-- The text that starts with the quote `c`. -/
def quotedPiece (c : Char) (cs : List Char) : Piece :=
  let q := readQuoted c cs
  ⟨if q.closed then .token (.text (String.ofList q.body)) else .unterminated, c, q.covered c⟩

/-- The longest symbol that starts with `c`. -/
def symbolPiece (c : Char) (cs : List Char) : Piece :=
  match Symbol.ofSpelling? (c :: cs.take 1), Symbol.ofSpelling? [c] with
  | some s, _ => ⟨.token (.symbol s), c, cs.take 1⟩
  | none, some s => ⟨.token (.symbol s), c, []⟩
  | none, none => ⟨.unexpected, c, []⟩

/-- The first piece of `c :: cs`. -/
def first (c : Char) (cs : List Char) : Piece :=
  if isBlank c then ⟨.skipped, c, cs.takeWhile isBlank⟩
  else if isNameStart c then
    ⟨.token (wordToken (c :: cs.takeWhile isNameChar)), c, cs.takeWhile isNameChar⟩
  else if c.isDigit then numberPiece c cs
  else if isQuote c then quotedPiece c cs
  else if c = '/' ∧ cs.head? = some '/' then ⟨.skipped, c, cs.takeWhile (· != '\n')⟩
  else symbolPiece c cs

/-- The pieces of a text. -/
def pieces : List Char → List Piece
  | [] => []
  | c :: cs => first c cs :: pieces (cs.drop (first c cs).tail.length)
termination_by cs => cs.length
decreasing_by simp only [List.length_cons, List.length_drop]; omega

theorem fraction_isPrefix (cs : List Char) : fraction cs <+: cs := by
  fun_cases fraction cs with
  | case1 => exact List.nil_prefix
  | case2 cs h => exact List.cons_prefix_cons.mpr ⟨rfl, List.takeWhile_prefix _⟩
  | case3 => exact List.nil_prefix

theorem numberPiece_tail_isPrefix (c : Char) (cs : List Char) :
    (numberPiece c cs).tail <+: cs := by
  obtain ⟨r, hr⟩ := fraction_isPrefix (cs.dropWhile Char.isDigit)
  refine ⟨r, ?_⟩
  simp only [numberPiece]
  rw [List.append_assoc, hr, List.takeWhile_append_dropWhile]

theorem symbolPiece_head (c : Char) (cs : List Char) : (symbolPiece c cs).head = c := by
  fun_cases symbolPiece c cs <;> rfl

theorem symbolPiece_tail_isPrefix (c : Char) (cs : List Char) :
    (symbolPiece c cs).tail <+: cs := by
  fun_cases symbolPiece c cs with
  | case1 => exact List.take_prefix 1 cs
  | case2 => exact List.nil_prefix
  | case3 => exact List.nil_prefix

theorem first_head (c : Char) (cs : List Char) : (first c cs).head = c := by
  fun_cases first c cs with
  | case6 => exact symbolPiece_head c cs
  | _ => rfl

theorem first_tail_isPrefix (c : Char) (cs : List Char) : (first c cs).tail <+: cs := by
  fun_cases first c cs with
  | case1 => exact List.takeWhile_prefix _
  | case2 => exact List.takeWhile_prefix _
  | case3 => exact numberPiece_tail_isPrefix c cs
  | case4 => exact readQuoted_isPrefix c cs
  | case5 => exact List.takeWhile_prefix _
  | case6 => exact symbolPiece_tail_isPrefix c cs

/-- The first piece, and what the other pieces are cut from. -/
theorem first_text_append_drop (c : Char) (cs : List Char) :
    (first c cs).text ++ cs.drop (first c cs).tail.length = c :: cs := by
  obtain ⟨r, hr⟩ := first_tail_isPrefix c cs
  have hdrop : cs.drop (first c cs).tail.length = r := by
    conv => lhs; arg 2; rw [← hr]
    exact List.drop_left
  rw [text, first_head, List.cons_append, hdrop, hr]

/-- **The pieces tile the text.** -/
theorem flatMap_pieces (cs : List Char) : (pieces cs).flatMap text = cs := by
  fun_induction pieces cs with
  | case1 => rfl
  | case2 c cs ih => rw [List.flatMap_cons, ih, first_text_append_drop]

end Piece

end Scriptlet
