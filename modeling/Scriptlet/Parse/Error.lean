import Scriptlet.Source.Lexed

/-!
# Syntax errors

A syntax error names what could have come next, the token found instead, and its position.
-/

namespace Scriptlet

/-- What could have come next. -/
inductive Expectation where
  | expression
  | identifier
  | token (t : Token)
  | commaOr (closing : Symbol)
  deriving DecidableEq

namespace Expectation

def text : Expectation → String
  | .expression => "expression"
  | .identifier => "identifier"
  | .token t => t.display
  | .commaOr closing => (Token.symbol .comma).display ++ " or " ++ (Token.symbol closing).display

end Expectation

/-- A token that no rule accepts where it stands. -/
structure SyntaxError where
  expected : Expectation
  found : Token
  position : Position
  deriving DecidableEq

namespace SyntaxError

/-- The message for a token found where only `expected` could stand. -/
def describe (expected : String) (found : Token) (position : Position) : String :=
  "Parse error at " ++ position.text ++ ": expected " ++ expected ++ ", found " ++ found.display

def message (e : SyntaxError) : String := describe e.expected.text e.found e.position

end SyntaxError

end Scriptlet
