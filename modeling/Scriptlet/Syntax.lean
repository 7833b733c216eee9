import Scriptlet.Token

/-! # Programs as trees

Expressions, statements and programs. Every node carries the position at which messages about it
point: an expression that of its leftmost token outside parentheses, a declaration or loop that of
its keyword. An expression may stand as a statement, and every statement has a value when it runs.
-/

namespace Scriptlet

/-- The operators between two operands. -/
inductive Operator where
  | add
  | sub
  | mul
  | div
  | rem
  | less
  | greater
  | lessEqual
  | greaterEqual
  | equal
  | notEqual
  | and
  | or
deriving DecidableEq

/-- How tightly an operator binds, from the loosest tier to the tightest. All tiers group to the
left. -/
inductive Tier where
  | logical
  | equality
  | relational
  | additive
  | multiplicative
deriving DecidableEq

namespace Operator

/-- The symbol an operator is written with. -/
def symbol : Operator → Symbol
  | add => .plus
  | sub => .minus
  | mul => .times
  | div => .divide
  | rem => .percent
  | less => .less
  | greater => .greater
  | lessEqual => .lessEqual
  | greaterEqual => .greaterEqual
  | equal => .equal
  | notEqual => .notEqual
  | and => .and
  | or => .or

/-- The spelling of an operator. -/
def text (op : Operator) : String :=
  op.symbol.text

/-- All operators. -/
def all : List Operator :=
  [add, sub, mul, div, rem, less, greater, lessEqual, greaterEqual, equal, notEqual, and, or]

/-- The operator that a symbol stands for between two operands. -/
def ofSymbol? (s : Symbol) : Option Operator :=
  all.find? (·.symbol == s)

/-- The operator with the given spelling. -/
def ofText? (s : String) : Option Operator :=
  all.find? (·.text == s)

/-- The tier of an operator. The remainder stands with addition and subtraction. -/
def tier : Operator → Tier
  | and | or => .logical
  | equal | notEqual => .equality
  | less | greater | lessEqual | greaterEqual => .relational
  | add | sub | rem => .additive
  | mul | div => .multiplicative

/-- Whether an operator combines truth values only. -/
def isLogical (op : Operator) : Bool :=
  op.tier == .logical

end Operator

/-- The operator that a token stands for between two operands. -/
def Token.Kind.operator? : Token.Kind → Option Operator
  | .symbol s => Operator.ofSymbol? s
  | _ => none

/-- The spelling of negation. -/
def negationText : String := Symbol.not.text

/-- An expression. -/
inductive Expr where
  /-- `target = value`; only a name may be assigned to, which is checked when it runs. -/
  | assign (target value : Expr) (pos : Position)
  | binary (op : Operator) (left right : Expr) (pos : Position)
  | not (operand : Expr) (pos : Position)
  | call (callee : Expr) (arguments : List Expr) (pos : Position)
  | identifier (name : String) (pos : Position)
  | number (value : Float) (pos : Position)
  /-- A truth value that the host puts into a tree; source texts spell it as a name. -/
  | bool (value : Bool) (pos : Position)

/-- A statement. -/
inductive Stmt where
  /-- `let name = value;`, `let name;` or `const name = value;`. -/
  | declare (name : String) (value : Option Expr) (constant : Bool) (pos : Position)
  /-- A function with its parameters and body. -/
  | function (name : String) (params : List String) (body : List Stmt) (pos : Position)
  /-- A loop that runs its body a fixed number of times. -/
  | loop (count : Nat) (body : List Stmt) (pos : Position)
  /-- A loop that runs its body as long as the condition is true. -/
  | whileLoop (condition : Expr) (body : List Stmt) (pos : Position)
  | expr (value : Expr)

/-- A program is the list of its statements. -/
abbrev Program := List Stmt

/-- The kinds of nodes. -/
inductive NodeKind where
  | program
  | declaration
  | function
  | loop
  | whileLoop
  | assignment
  | binary
  | unary
  | call
  | identifier
  | number
  | bool
deriving DecidableEq

namespace NodeKind

/-- The name of a kind of node, as listings and messages write it. -/
def text : NodeKind → String
  | program => "Program"
  | declaration => "VarDeclaration"
  | function => "FuncDeclaration"
  | loop => "ForStatement"
  | whileLoop => "WhileStatement"
  | assignment => "AssignmentExpr"
  | binary => "BinaryExpr"
  | unary => "UnaryExpr"
  | call => "CallExpr"
  | identifier => "Identifier"
  | number => "NumericLiteral"
  | bool => "BooleanLiteral"

end NodeKind

namespace Expr

/-- The kind of an expression. -/
def kind : Expr → NodeKind
  | assign .. => .assignment
  | binary .. => .binary
  | not .. => .unary
  | call .. => .call
  | identifier .. => .identifier
  | number .. => .number
  | bool .. => .bool

/-- The position of an expression. -/
def pos : Expr → Position
  | assign _ _ p | binary _ _ _ p | not _ p | call _ _ p => p
  | identifier _ p | number _ p | bool _ p => p

end Expr

namespace Stmt

/-- The kind of a statement. -/
def kind : Stmt → NodeKind
  | declare .. => .declaration
  | function .. => .function
  | loop .. => .loop
  | whileLoop .. => .whileLoop
  | expr e => e.kind

/-- The position of a statement. -/
def pos : Stmt → Position
  | declare _ _ _ p | function _ _ _ p | loop _ _ p | whileLoop _ _ p => p
  | expr e => e.pos

end Stmt

end Scriptlet
