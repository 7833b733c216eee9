import Scriptlet.Position
import Scriptlet.Number.Decimal
import Scriptlet.Text.Slice

/-! # Tokens

The words of the language: number literals, names, five keywords, operators and punctuation, and
the mark at the end of the text. `Token.Kind.describe` is how messages quote a token.
-/

namespace Scriptlet

/-- The reserved words. -/
inductive Keyword where
  | letKw
  | constKw
  | fnKw
  | forKw
  | whileKw
deriving DecidableEq

namespace Keyword

/-- The spelling of a keyword. -/
def text : Keyword → String
  | letKw => "let"
  | constKw => "const"
  | fnKw => "fn"
  | forKw => "for"
  | whileKw => "while"

/-- All keywords. -/
def all : List Keyword := [letKw, constKw, fnKw, forKw, whileKw]

/-- The keyword with the given spelling. -/
def ofText? (s : String) : Option Keyword :=
  all.find? (·.text == s)

end Keyword

/-- Operators and punctuation. -/
inductive Symbol where
  | assign
  | equal
  | not
  | notEqual
  | less
  | lessEqual
  | greater
  | greaterEqual
  | and
  | or
  | plus
  | minus
  | times
  | divide
  | percent
  | leftParen
  | rightParen
  | leftBrace
  | rightBrace
  | comma
  | semicolon
deriving DecidableEq

namespace Symbol

/-- The spelling of a symbol. -/
def text : Symbol → String
  | assign => "="
  | equal => "=="
  | not => "!"
  | notEqual => "!="
  | less => "<"
  | lessEqual => "<="
  | greater => ">"
  | greaterEqual => ">="
  | and => "&&"
  | or => "||"
  | plus => "+"
  | minus => "-"
  | times => "*"
  | divide => "/"
  | percent => "%"
  | leftParen => "("
  | rightParen => ")"
  | leftBrace => "\x7b"
  | rightBrace => "\x7d"
  | comma => ","
  | semicolon => ";"

/-- All symbols. -/
def all : List Symbol :=
  [assign, equal, not, notEqual, less, lessEqual, greater, greaterEqual, and, or, plus, minus,
    times, divide, percent, leftParen, rightParen, leftBrace, rightBrace, comma, semicolon]

/-- The symbol with the given spelling. -/
def ofText? (s : String) : Option Symbol :=
  all.find? (·.text == s)

end Symbol

/-- What a token is. -/
inductive Token.Kind where
  | number (value : Float)
  | identifier (name : String)
  | keyword (word : Keyword)
  | symbol (sign : Symbol)
  | endOfFile

namespace Token.Kind

/-- A token as messages quote it: fixed spellings between single quotes, literals and names with
their class before them. -/
def describe : Token.Kind → String
  | number x => "number " ++ Number.text x
  | identifier name => "identifier '" ++ name ++ "'"
  | keyword w => "'" ++ w.text ++ "'"
  | symbol s => "'" ++ s.text ++ "'"
  | endOfFile => "end of file"

end Token.Kind

/-- A classified lexeme with its place in the text. -/
structure Token where
  kind : Token.Kind
  pos : Position
  span : Span

namespace Token

/-- The text a token was scanned from, empty if its span does not fit the source. -/
def lexeme (t : Token) (source : String) : String :=
  Text.sliceBytes t.span.start t.span.stop source

end Token

end Scriptlet
