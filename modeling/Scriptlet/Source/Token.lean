import Scriptlet.Number.Shortest
import Scriptlet.Source.Position

/-!
# Tokens

The words of the language: keywords, symbols, numbers, quoted texts, names, and the mark for the end
of input.  `Token.display` is how a token is named in a message.
-/

namespace Scriptlet

inductive Keyword where
  | letWord
  | constWord
  | ifWord
  | elseWord
  | fnWord
  | returnWord
  | whileWord
  | forWord
  | trueWord
  | falseWord
  | nullWord
  deriving DecidableEq

namespace Keyword

def spelling : Keyword → String
  | .letWord => "let"
  | .constWord => "const"
  | .ifWord => "if"
  | .elseWord => "else"
  | .fnWord => "fn"
  | .returnWord => "return"
  | .whileWord => "while"
  | .forWord => "for"
  | .trueWord => "true"
  | .falseWord => "false"
  | .nullWord => "null"

def all : List Keyword :=
  [.letWord, .constWord, .ifWord, .elseWord, .fnWord, .returnWord, .whileWord, .forWord,
    .trueWord, .falseWord, .nullWord]

/-- The keyword spelt like `word`. -/
def ofSpelling? (word : String) : Option Keyword := all.find? (·.spelling == word)

theorem ofSpelling?_spelling (k : Keyword) : ofSpelling? k.spelling = some k := by
  cases k <;> decide

end Keyword

inductive Symbol where
  | equalEqual
  | bangEqual
  | lessEqual
  | greaterEqual
  | andAnd
  | orOr
  | less
  | greater
  | bang
  | plus
  | minus
  | star
  | slash
  | percent
  | equals
  | leftParen
  | rightParen
  | leftBrace
  | rightBrace
  | leftBracket
  | rightBracket
  | comma
  | semicolon
  | colon
  | dot
  deriving DecidableEq

namespace Symbol

def spelling : Symbol → List Char
  | .equalEqual => ['=', '=']
  | .bangEqual => ['!', '=']
  | .lessEqual => ['<', '=']
  | .greaterEqual => ['>', '=']
  | .andAnd => ['&', '&']
  | .orOr => ['|', '|']
  | .less => ['<']
  | .greater => ['>']
  | .bang => ['!']
  | .plus => ['+']
  | .minus => ['-']
  | .star => ['*']
  | .slash => ['/']
  | .percent => ['%']
  | .equals => ['=']
  | .leftParen => ['(']
  | .rightParen => [')']
  | .leftBrace => ['\x7b']
  | .rightBrace => ['\x7d']
  | .leftBracket => ['[']
  | .rightBracket => [']']
  | .comma => [',']
  | .semicolon => [';']
  | .colon => [':']
  | .dot => ['.']

def all : List Symbol :=
  [.equalEqual, .bangEqual, .lessEqual, .greaterEqual, .andAnd, .orOr, .less, .greater, .bang,
    .plus, .minus, .star, .slash, .percent, .equals, .leftParen, .rightParen, .leftBrace,
    .rightBrace, .leftBracket, .rightBracket, .comma, .semicolon, .colon, .dot]

/-- The symbol spelt exactly like `cs`. -/
def ofSpelling? (cs : List Char) : Option Symbol := all.find? (·.spelling == cs)

theorem ofSpelling?_spelling (s : Symbol) : ofSpelling? s.spelling = some s := by
  cases s <;> decide

end Symbol

/-- A word of the language.  A text holds what stands between its quotes, unchanged.  Comments are
never scanned into tokens; the kind exists for token lists from elsewhere. -/
inductive Token where
  | keyword (k : Keyword)
  | symbol (s : Symbol)
  | number (n : Binary64)
  | text (s : String)
  | name (x : String)
  | comment
  | endOfInput
  deriving DecidableEq

namespace Token

/-- How a message names the token. -/
def display : Token → String
  | .keyword k => "'" ++ k.spelling ++ "'"
  | .symbol s => "'" ++ String.ofList s.spelling ++ "'"
  | .number n => "'" ++ n.text ++ "'"
  | .text s => "'\"" ++ s ++ "\"'"
  | .name x => "'" ++ x ++ "'"
  | .comment => "'comment'"
  | .endOfInput => "end of input"

end Token

/-- A token and the position of its first character. -/
structure Located where
  token : Token
  position : Position
  deriving DecidableEq

end Scriptlet
