import Scriptlet.Token

/-! # Why tokens do not form a program -/

namespace Scriptlet

/-- What would have been accepted in place of an unexpected token. -/
inductive Expected where
  | moreInput
  | expression
  | iterationCount
  | commaOrClose
  | symbol (sign : Symbol)
deriving DecidableEq

/-- How messages name what was expected. -/
def Expected.text : Expected → String
  | moreInput => "more input"
  | expression => "expression"
  | iterationCount => "iteration count"
  | commaOrClose => "',' or ')'"
  | symbol s => (Token.Kind.symbol s).describe

/-- Why tokens do not form a program. -/
inductive SyntaxError.Cause where
  /-- A function declaration without a name. -/
  | missingFunctionName (found : Token.Kind)
  /-- A function name without an opening parenthesis after it. -/
  | malformedParameters (found : Token.Kind)
  /-- A parameter that is not a name. -/
  | invalidParameter
  /-- A declared value without a semicolon after it. -/
  | missingSemicolon (found : Token.Kind)
  /-- A declaration without a name. -/
  | invalidDeclaration (found : Token.Kind)
  /-- A constant without a value. -/
  | missingConstantValue (name : String)
  /-- A loop count that is not a whole number from zero to the largest count. -/
  | invalidCount (found : Float)
  | unexpected (expected : Expected) (found : Token.Kind)

/-- A cause and where it stands. -/
structure SyntaxError where
  cause : SyntaxError.Cause
  pos : Position

/-- The error of a token list that ends too early, which no token has the position of. -/
def SyntaxError.endOfInput : SyntaxError :=
  ⟨.unexpected .moreInput .endOfFile, .nowhere⟩

/-- The error of a token that is not what was expected. -/
def SyntaxError.unexpected (expected : Expected) (found : Token) : SyntaxError :=
  ⟨.unexpected expected found.kind, found.pos⟩

end Scriptlet
