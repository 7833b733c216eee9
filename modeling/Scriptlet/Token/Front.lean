import Scriptlet.Token

/-! # The front of a text

`front` says what stands at the front of a text that is not empty: a piece of trivia (white space, a
line comment, a block comment), a lexeme, or a fault. It reports how many characters the piece
takes beyond the first one, so every piece takes at least one. A lexeme is always the longest one
that starts there, so `front` stands for any lexer that is generated from the patterns of the pieces
and takes leftmost-longest matches. `Proofs.Token.Matching` names that property and proves it to be
all that is used of such a lexer.
-/

namespace Scriptlet.Token

/-- Why a text cannot be split into tokens. -/
inductive Fault where
  | illegalCharacter (c : Char)
  | malformedBlockComment
  | unterminatedBlockComment
deriving DecidableEq

/-- What stands at the front of a text. A piece takes its first character and `more` others. -/
inductive Front where
  | trivia (more : Nat)
  | lexeme (kind : Token.Kind) (more : Nat)
  | fault (fault : Fault)

/-- White space within a line. -/
def isLineBlank (c : Char) : Bool :=
  c == ' ' || c == '\t' || c == '\r' || c == '\x0c'

/-- The characters that may start a word: the ASCII letters and the underscore. -/
def isWordStart (c : Char) : Bool :=
  c.isAlpha || c == '_'

/-- The characters that may continue a word. -/
def isWordPart (c : Char) : Bool :=
  c.isAlphanum || c == '_'

/-- The number of characters up to the end of a block comment that is open `depth + 1` levels deep,
counted on from `taken`. Pairs that open and close a level are read from left to right without
overlap. -/
def commentLength? : List Char → Nat → Nat → Option Nat
  | '#' :: '|' :: cs, depth, taken => commentLength? cs (depth + 1) (taken + 2)
  | '|' :: '#' :: _, 0, taken => some (taken + 2)
  | '|' :: '#' :: cs, depth + 1, taken => commentLength? cs depth (taken + 2)
  | _ :: cs, depth, taken => commentLength? cs depth (taken + 1)
  | [], _, _ => none

/-- The number that ASCII digits denote. -/
def digitsValue (ds : List Char) : Nat :=
  ds.foldl (fun n d => 10 * n + (d.toNat - '0'.toNat)) 0

/-- The front of a text that starts with the digit `c`: digits, and a fraction if a point with a
digit after it follows them. -/
def numberFront (c : Char) (cs : List Char) : Front :=
  let whole := cs.takeWhile Char.isDigit
  match cs.dropWhile Char.isDigit with
  | '.' :: d :: rest =>
    if d.isDigit then
      let fraction := d :: rest.takeWhile Char.isDigit
      .lexeme (.number (Number.ofDecimal (digitsValue (c :: whole ++ fraction)) fraction.length))
        (whole.length + 1 + fraction.length)
    else
      .lexeme (.number (Number.ofDecimal (digitsValue (c :: whole)) 0)) whole.length
  | _ => .lexeme (.number (Number.ofDecimal (digitsValue (c :: whole)) 0)) whole.length

/-- A word is a keyword if all of it is one, and a name otherwise. -/
def wordKind (word : String) : Token.Kind :=
  match Keyword.ofText? word with
  | some k => .keyword k
  | none => .identifier word

/-- The front of a text that starts with the letter or underscore `c`. -/
def wordFront (c : Char) (cs : List Char) : Front :=
  let more := cs.takeWhile isWordPart
  .lexeme (wordKind (String.ofList (c :: more))) more.length

/-- The symbol of two characters. -/
def pairSymbol? : Char → Char → Option Symbol
  | '=', '=' => some .equal
  | '!', '=' => some .notEqual
  | '<', '=' => some .lessEqual
  | '>', '=' => some .greaterEqual
  | '&', '&' => some .and
  | '|', '|' => some .or
  | _, _ => none

/-- The symbol of one character. -/
def singleSymbol? : Char → Option Symbol
  | '=' => some .assign
  | '!' => some .not
  | '<' => some .less
  | '>' => some .greater
  | '+' => some .plus
  | '-' => some .minus
  | '*' => some .times
  | '/' => some .divide
  | '%' => some .percent
  | '(' => some .leftParen
  | ')' => some .rightParen
  | '\x7b' => some .leftBrace
  | '\x7d' => some .rightBrace
  | ',' => some .comma
  | ';' => some .semicolon
  | _ => none

/-- The front of a text that starts with a symbol: two characters if they make one, else one. -/
def symbolFront (c : Char) (cs : List Char) : Front :=
  match cs.head?.bind (pairSymbol? c) with
  | some s => .lexeme (.symbol s) 1
  | none =>
    match singleSymbol? c with
    | some s => .lexeme (.symbol s) 0
    | none => .fault (.illegalCharacter c)

/-- The front of a text that starts with `#`: a block comment, which opens with `#|`. -/
def commentFront : List Char → Front
  | '|' :: cs =>
    match commentLength? cs 0 1 with
    | some more => .trivia more
    | none => .fault .unterminatedBlockComment
  | _ => .fault .malformedBlockComment

/-- What stands at the front of the text `c :: cs`. -/
def front (c : Char) (cs : List Char) : Front :=
  if isLineBlank c || c == '\n' then .trivia 0
  else if c == '@' then .trivia (cs.takeWhile (· != '\n')).length
  else if c == '#' then commentFront cs
  else if c.isDigit then numberFront c cs
  else if isWordStart c then wordFront c cs
  else symbolFront c cs

end Scriptlet.Token
