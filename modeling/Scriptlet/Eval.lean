import Scriptlet.Native
import Scriptlet.Operation

/-! # Running programs

The evaluator walks the tree of a program in a scope. Blocks share the scope they stand in; only a
call makes a new one, below the scope its function was declared in. Every statement has a value, and
a block has that of its last statement, or nil. Each step spends one unit of fuel, and a run that
spends all of it is unfinished; `limit` bounds the depth of nested calls.
-/

namespace Scriptlet

variable [Host]

mutual

/-- Evaluates an expression in a scope. Operands and arguments are evaluated from left to right, and
both operands of every operator. -/
def evalExpr (limit : Nat) : Nat → ScopeId → Expr → Eval Value
  | 0, _, _ => Eval.unfinished
  | _ + 1, _, .number x _ => pure (.number x)
  | _ + 1, _, .bool b _ => pure (.bool b)
  | _ + 1, scope, .identifier name pos => Eval.lookup scope name pos
  | fuel + 1, scope, .assign target value pos =>
    match target with
    | .identifier name _ => do
      let v ← evalExpr limit fuel scope value
      Eval.assign scope name v pos
    | other => Eval.fail (.invalidTarget other.kind) other.pos
  | fuel + 1, scope, .not operand pos => do
    let v ← evalExpr limit fuel scope operand
    Eval.ofExcept pos v.negate
  | fuel + 1, scope, .binary op left right pos => do
    let l ← evalExpr limit fuel scope left
    let r ← evalExpr limit fuel scope right
    Eval.ofExcept pos (op.apply l r)
  | fuel + 1, scope, .call callee arguments pos => do
    let f ← evalExpr limit fuel scope callee
    let vs ← evalArguments limit fuel scope arguments
    match f with
    | .function f => callFunction limit fuel f vs pos
    | .native f => Host.call f vs scope pos
    | other => Eval.fail (.notCallable other.text other.type) pos

/-- Evaluates expressions from left to right. -/
def evalArguments (limit : Nat) : Nat → ScopeId → List Expr → Eval (List Value)
  | 0, _, _ => Eval.unfinished
  | _ + 1, _, [] => pure []
  | fuel + 1, scope, e :: es => do
    let v ← evalExpr limit fuel scope e
    let vs ← evalArguments limit fuel scope es
    pure (v :: vs)

/-- Evaluates a statement in a scope. -/
def evalStmt (limit : Nat) : Nat → ScopeId → Stmt → Eval Value
  | 0, _, _ => Eval.unfinished
  | _ + 1, scope, .declare name none constant pos => Eval.declare scope name .nil constant pos
  | fuel + 1, scope, .declare name (some value) constant pos => do
    let v ← evalExpr limit fuel scope value
    Eval.declare scope name v constant pos
  | _ + 1, scope, .function name params body pos =>
    Eval.declare scope name (.function ⟨name, params, body, scope⟩) true pos
  | fuel + 1, scope, .loop count body _ => evalLoop limit fuel scope body count .nil
  | fuel + 1, scope, .whileLoop condition body _ => evalWhile limit fuel scope condition body .nil
  | fuel + 1, scope, .expr e => evalExpr limit fuel scope e

/-- Evaluates statements in sequence; `last` is the value of the statement before them. -/
def evalBlock (limit : Nat) : Nat → ScopeId → List Stmt → Value → Eval Value
  | 0, _, _, _ => Eval.unfinished
  | _ + 1, _, [], last => pure last
  | fuel + 1, scope, s :: ss, _ => do
    let v ← evalStmt limit fuel scope s
    evalBlock limit fuel scope ss v

/-- Runs the body of a loop `count` more times; `last` is the value of the pass before. -/
def evalLoop (limit : Nat) : Nat → ScopeId → List Stmt → Nat → Value → Eval Value
  | 0, _, _, _, _ => Eval.unfinished
  | _ + 1, _, _, 0, last => pure last
  | fuel + 1, scope, body, count + 1, _ => do
    let v ← evalBlock limit fuel scope body .nil
    evalLoop limit fuel scope body count v

/-- Runs the body of a loop as long as the condition is true; a condition of another type ends it
too. -/
def evalWhile (limit : Nat) : Nat → ScopeId → Expr → List Stmt → Value → Eval Value
  | 0, _, _, _, _ => Eval.unfinished
  | fuel + 1, scope, condition, body, last => do
    match ← evalExpr limit fuel scope condition with
    | .bool true =>
      let v ← evalBlock limit fuel scope body .nil
      evalWhile limit fuel scope condition body v
    | _ => pure last

/-- Calls a function: the number of arguments is checked first, then the depth; the body runs in a
new scope that binds the parameters. -/
def callFunction (limit : Nat) : Nat → Function → List Value → Position → Eval Value
  | 0, _, _, _ => Eval.unfinished
  | fuel + 1, f, arguments, pos =>
    if arguments.length = f.params.length then do
      Eval.claimDepth limit pos
      let scope ← Eval.newScope (some f.closure)
      Eval.declareAll scope false pos (f.params.zip arguments)
      Eval.deeper (evalBlock limit fuel scope f.body .nil)
    else Eval.fail (.arityMismatch f.name f.params.length arguments.length) pos

end

/-- Runs a program in a scope. -/
def Program.eval (limit fuel : Nat) (scope : ScopeId) (p : Program) : Eval Value :=
  evalBlock limit fuel scope p .nil

end Scriptlet
