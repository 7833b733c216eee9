import Scriptlet.Syntax
import Scriptlet.Syntax.Parser.Basic

/-! # Parsing expressions

From the loosest to the tightest: assignment, which groups to the right; five tiers of operators,
which group to the left; negation; calls; and primaries, that is names, numbers and expressions in
parentheses. Each parser below is given `self`, the parser of a whole expression, and a bound on
the passes of its loops; `expressionWithin` ties the knot. Every pass and every use of `self`
follows a consumed token, so a bound above the number of tokens is never met.
-/

namespace Scriptlet

/-- The levels of the tiers, counted from the tightest one up. Level zero is negation. -/
def Tier.level : Tier → Nat
  | multiplicative => 1
  | additive => 2
  | relational => 3
  | equality => 4
  | logical => 5

namespace Parser

/-- The items of a list up to the closing parenthesis, after those in `before`, which are held last
one first. At least one item follows. -/
def items (self : Parser Expr) : Nat → List Expr → Parser (List Expr)
  | 0, _ => fail .endOfInput
  | passes + 1, before => do
    let item ← self
    let t ← next
    if isSymbol .comma t then items self passes (item :: before)
    else if isSymbol .rightParen t then pure (item :: before).reverse
    else fail (.unexpected .commaOrClose t)

/-- A list of expressions separated by commas, up to and with the closing parenthesis. -/
def commaList (self : Parser Expr) (passes : Nat) : Parser (List Expr) := do
  if ← skipIf .rightParen then pure [] else items self passes []

/-- A name, a number or an expression in parentheses, which keeps the position it has inside. -/
def primary (self : Parser Expr) : Parser Expr := do
  let t ← next
  match t.kind with
  | .identifier name => pure (.identifier name t.pos)
  | .number x => pure (.number x t.pos)
  | .symbol .leftParen => do
    let e ← self
    expect .rightParen
    pure e
  | _ => fail (.unexpected .expression t)

/-- Calls of the expression `callee`, as long as argument lists follow. -/
def callsFrom (self : Parser Expr) : Nat → Expr → Parser Expr
  | 0, callee => pure callee
  | passes + 1, callee => do
    if ← skipIf .leftParen then
      let arguments ← commaList self passes
      callsFrom self passes (.call callee arguments callee.pos)
    else pure callee

/-- A primary, called any number of times. -/
def call (self : Parser Expr) (passes : Nat) : Parser Expr := do
  let e ← primary self
  callsFrom self passes e

/-- A call, negated any number of times. -/
def unary (self : Parser Expr) (passes : Nat) : Parser Expr
  | [] => call self passes []
  | t :: ts =>
    if isSymbol .not t then
      match unary self passes ts with
      | .ok e rest => .ok (.not e t.pos) rest
      | .error e rest => .error e rest
    else call self passes (t :: ts)

/-- Takes the next token if it is an operator of the given level. -/
def takeOperator? (level : Nat) : Parser (Option Operator)
  | [] => .ok none []
  | t :: ts =>
    match t.kind.operator? with
    | some op => if op.tier.level = level then .ok (some op) ts else .ok none (t :: ts)
    | none => .ok none (t :: ts)

/-- Operators of one level and their right operands, added to `left` from left to right. -/
def chainFrom (level : Nat) (operand : Parser Expr) : Nat → Expr → Parser Expr
  | 0, left => pure left
  | passes + 1, left => do
    match ← takeOperator? level with
    | some op =>
      let right ← operand
      chainFrom level operand passes (.binary op left right left.pos)
    | none => pure left

/-- Operands joined by operators up to the given level. -/
def chain (self : Parser Expr) (passes : Nat) : Nat → Parser Expr
  | 0 => unary self passes
  | level + 1 => do
    let left ← chain self passes level
    chainFrom (level + 1) (chain self passes level) passes left

/-- Operands joined by operators of a tier and the tighter ones. -/
def tier (self : Parser Expr) (passes : Nat) (t : Tier) : Parser Expr :=
  chain self passes t.level

/-- An assignment, or an expression of the loosest tier. -/
def assignment (self : Parser Expr) (passes : Nat) : Parser Expr := do
  let target ← tier self passes .logical
  if ← skipIf .assign then
    let value ← self
    pure (.assign target value target.pos)
  else pure target

/-- A whole expression, for token lists shorter than the bound. -/
def expressionWithin : Nat → Parser Expr
  | 0 => fail .endOfInput
  | bound + 1 => assignment (expressionWithin bound) bound

/-- Runs a bounded parser with a bound above the number of tokens. -/
def unbounded {α : Type} (p : Nat → Parser α) : Parser α := fun ts =>
  p (ts.length + 1) ts

/-- A whole expression. -/
def expression : Parser Expr := unbounded expressionWithin

end Parser

end Scriptlet
