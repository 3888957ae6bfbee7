import Scriptlet.Source.Piece

/-!
# The tokens of a text

`tokenize` cuts a text into pieces, gives every piece the position of its first character, and
sorts them into tokens and errors.  Blanks and comments are dropped, and the token list always ends
with the end of input.
-/

namespace Scriptlet

/-- A stretch of the text that is no token. -/
inductive LexicalError where
  | unexpectedCharacter (c : Char) (position : Position)
  | unterminatedText (position : Position)
  deriving DecidableEq

namespace LexicalError

def position : LexicalError → Position
  | .unexpectedCharacter _ p => p
  | .unterminatedText p => p

def message : LexicalError → String
  | .unexpectedCharacter c p =>
    "Lexer error at " ++ p.text ++ ": unexpected character '" ++ String.singleton c ++ "'"
  | .unterminatedText p => "Lexer error at " ++ p.text ++ ": unterminated string literal"

end LexicalError

/-- The tokens and the errors of a text, each in the order of the text. -/
structure Lexed where
  tokens : List Located
  errors : List LexicalError
  deriving DecidableEq

namespace Piece

/-- Pieces that follow each other from `offset` on, with the positions of their first characters. -/
def locate (table : LineTable) (offset : Nat) : List Piece → List (Piece × Position)
  | [] => []
  | p :: ps => (p, table.position offset) :: locate table (offset + byteLength p.text) ps

def token? (piece : Piece) (position : Position) : Option Located :=
  match piece.kind with
  | .token t => some ⟨t, position⟩
  | _ => none

def error? (piece : Piece) (position : Position) : Option LexicalError :=
  match piece.kind with
  | .unexpected => some (.unexpectedCharacter piece.head position)
  | .unterminated => some (.unterminatedText position)
  | _ => none

end Piece

/-- The tokens and errors of a source text. -/
def tokenize (source : List Char) : Lexed :=
  let table := LineTable.ofText source
  let located := Piece.locate table 0 (Piece.pieces source)
  { tokens := located.filterMap (fun p => p.1.token? p.2) ++
      [⟨.endOfInput, table.position (byteLength source)⟩]
    errors := located.filterMap (fun p => p.1.error? p.2) }

end Scriptlet
