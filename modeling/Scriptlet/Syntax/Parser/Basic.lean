import Scriptlet.Syntax.Error

/-! # Parsers over token lists

A parser takes tokens from the front of a list and answers with a value or an error. Both answers
carry the tokens that are left, so an error shows how far the parser came. The primitives below
differ in what they consume: `next` and `expect` take a token even if it turns out to be wrong,
`peek`, `nextIs` and `skipIf` leave it.
-/

namespace Scriptlet

/-- The answer of a parser, with the tokens it did not consume. -/
inductive Reply (α : Type) where
  | ok (value : α) (rest : List Token)
  | error (error : SyntaxError) (rest : List Token)

namespace Reply

/-- The tokens that are left. -/
def rest {α : Type} : Reply α → List Token
  | ok _ r | error _ r => r

/-- The answer without the tokens that are left. -/
def toExcept {α : Type} : Reply α → Except SyntaxError α
  | ok a _ => .ok a
  | error e _ => .error e

end Reply

/-- A parser of values of type `α`. -/
def Parser (α : Type) : Type := List Token → Reply α

namespace Parser

/-- Succeeds without consuming a token. -/
@[inline] protected def pure {α : Type} (a : α) : Parser α := fun ts => .ok a ts

/-- Runs a parser and then the one chosen by its value, unless the first fails. -/
@[inline] protected def bind {α β : Type} (p : Parser α) (f : α → Parser β) : Parser β := fun ts =>
  match p ts with
  | .ok a rest => f a rest
  | .error e rest => .error e rest

@[always_inline] instance : Monad Parser where
  pure := Parser.pure
  bind := Parser.bind

theorem pure_apply {α : Type} (a : α) (ts : List Token) :
    (pure a : Parser α) ts = .ok a ts := rfl

theorem bind_apply {α β : Type} (p : Parser α) (f : α → Parser β) (ts : List Token) :
    (p >>= f) ts =
      match p ts with
      | .ok a rest => f a rest
      | .error e rest => .error e rest := rfl

/-- Fails without consuming a token. -/
def fail {α : Type} (e : SyntaxError) : Parser α := fun ts => .error e ts

/-- Takes the next token. -/
def next : Parser Token
  | t :: ts => .ok t ts
  | [] => .error .endOfInput []

/-- Looks at the next token. -/
def peek : Parser Token
  | t :: ts => .ok t (t :: ts)
  | [] => .error .endOfInput []

/-- Whether a token is the given symbol. -/
def isSymbol (s : Symbol) (t : Token) : Bool :=
  match t.kind with
  | .symbol s' => s' == s
  | _ => false

/-- Whether the next token is the given symbol, which is taken if so. -/
def skipIf (s : Symbol) : Parser Bool
  | t :: ts => if isSymbol s t then .ok true ts else .ok false (t :: ts)
  | [] => .ok false []

/-- Takes the next token, which must be the given symbol; `wrong` is the error of another one. -/
def expectOr (s : Symbol) (wrong : Token → SyntaxError) : Parser Unit := do
  let t ← next
  if isSymbol s t then pure () else fail (wrong t)

/-- Takes the next token, which must be the given symbol. -/
def expect (s : Symbol) : Parser Unit :=
  expectOr s (.unexpected (.symbol s))

/-- Whether the tokens are used up or the end of the text is next. -/
def atEnd : List Token → Bool
  | [] => true
  | t :: _ =>
    match t.kind with
    | .endOfFile => true
    | _ => false

end Parser

end Scriptlet
