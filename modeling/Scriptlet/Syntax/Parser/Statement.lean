import Scriptlet.Number.Count
import Scriptlet.Syntax.Parser.Expression

/-! # Parsing statements and programs

A declaration ends with a semicolon; after any other statement a semicolon may follow. A block is a
list of statements between braces, and a program is a list of statements up to the end of the text.
As for expressions, the parsers are given bounds that lists of tokens never reach.
-/

namespace Scriptlet.Parser

/-- Takes the next token, which must be a name; `wrong` is the cause of the error of another one. -/
def name (wrong : Token.Kind → SyntaxError.Cause) : Parser String := do
  let t ← next
  match t.kind with
  | .identifier s => pure s
  | found => fail ⟨wrong found, t.pos⟩

/-- Statements one after another until the end, or until a token on which `stop` holds, after those
in `before`, which are held last one first. -/
def statementsUntil (stop : Token → Bool) (statement : Parser Stmt) :
    Nat → List Stmt → Parser (List Stmt)
  | 0, before => pure before.reverse
  | passes + 1, before => fun ts =>
    if atEnd ts || ts.head?.any stop then .ok before.reverse ts
    else
      match statement ts with
      | .ok s rest => statementsUntil stop statement passes (s :: before) rest
      | .error e rest => .error e rest

/-- Statements between braces. -/
def block (statement : Parser Stmt) (passes : Nat) : Parser (List Stmt) := do
  expect .leftBrace
  let body ← statementsUntil (isSymbol .rightBrace) statement passes []
  expect .rightBrace
  pure body

/-- A declaration of a variable or a constant, whichever its keyword says. -/
def declaration (expression : Parser Expr) : Parser Stmt := do
  let keyword ← next
  let constant := match keyword.kind with
    | .keyword .constKw => true
    | _ => false
  let declared ← name .invalidDeclaration
  if ← skipIf .semicolon then
    if constant then fail ⟨.missingConstantValue declared, keyword.pos⟩
    else pure (.declare declared none constant keyword.pos)
  else
    expect .assign
    let value ← expression
    expectOr .semicolon fun t => ⟨.missingSemicolon t.kind, t.pos⟩
    pure (.declare declared (some value) constant keyword.pos)

/-- The names that a list of expressions consists of, or the error of the first that is no name. -/
def paramNames : List Expr → Except SyntaxError (List String)
  | [] => .ok []
  | .identifier s _ :: es =>
    match paramNames es with
    | .ok names => .ok (s :: names)
    | .error e => .error e
  | e :: _ => .error ⟨.invalidParameter, e.pos⟩

/-- A function declaration. Its parameters are read as expressions and must turn out to be names. -/
def functionDeclaration (expression : Parser Expr) (block : Parser (List Stmt)) (passes : Nat) :
    Parser Stmt := do
  let keyword ← next
  let declared ← name .missingFunctionName
  expectOr .leftParen fun t => ⟨.malformedParameters t.kind, t.pos⟩
  let listed ← commaList expression passes
  match paramNames listed with
  | .error e => fail e
  | .ok params =>
    let body ← block
    pure (.function declared params body keyword.pos)

/-- A loop with a fixed number of passes, which is a number literal. -/
def countedLoop (block : Parser (List Stmt)) : Parser Stmt := do
  let keyword ← next
  let t ← next
  match t.kind with
  | .number x =>
    match Number.count? x with
    | some n =>
      let body ← block
      pure (.loop n body keyword.pos)
    | none => fail ⟨.invalidCount x, t.pos⟩
  | _ => fail (.unexpected .iterationCount t)

/-- A loop with a condition. -/
def conditionalLoop (expression : Parser Expr) (block : Parser (List Stmt)) : Parser Stmt := do
  let keyword ← next
  let condition ← expression
  let body ← block
  pure (.whileLoop condition body keyword.pos)

/-- A statement that is not a declaration of a variable or a constant may be followed by a
semicolon. -/
def optionalSemicolon (statement : Parser Stmt) : Parser Stmt := do
  let s ← statement
  let _ ← skipIf .semicolon
  pure s

/-- A statement, chosen by its first token. -/
def statement (expression : Parser Expr) (block : Parser (List Stmt)) (passes : Nat) :
    Parser Stmt := do
  let first ← peek
  match first.kind with
  | .keyword .letKw | .keyword .constKw => declaration expression
  | .keyword .fnKw => optionalSemicolon (functionDeclaration expression block passes)
  | .keyword .forKw => optionalSemicolon (countedLoop block)
  | .keyword .whileKw => optionalSemicolon (conditionalLoop expression block)
  | _ => optionalSemicolon do
    let e ← expression
    pure (.expr e)

/-- A statement, for token lists shorter than the bound. -/
def statementWithin : Nat → Parser Stmt
  | 0 => fail .endOfInput
  | bound + 1 =>
    statement (expressionWithin (bound + 1)) (block (statementWithin bound) bound) bound

/-- A block, for token lists shorter than the bound. -/
def blockWithin (bound : Nat) : Parser (List Stmt) :=
  block (statementWithin bound) bound

/-- A program, for token lists shorter than the bound. -/
def programWithin (bound : Nat) : Parser Program :=
  statementsUntil (fun _ => false) (statementWithin bound) bound []

/-- A statement. -/
def anyStatement : Parser Stmt := unbounded statementWithin

/-- A block. -/
def anyBlock : Parser (List Stmt) := unbounded blockWithin

/-- A program. -/
def program : Parser Program := unbounded programWithin

end Scriptlet.Parser

namespace Scriptlet

/-- The program that tokens form. What follows the mark at the end of the text is not looked at. -/
def Program.ofTokens (ts : List Token) : Except SyntaxError Program :=
  (Parser.program ts).toExcept

end Scriptlet
