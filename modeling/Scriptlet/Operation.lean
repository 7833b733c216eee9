import Scriptlet.Number.Remainder
import Scriptlet.RuntimeError

/-! # What operators compute

Arithmetic and order are defined between numbers, conjunction and disjunction between truth values,
and equality between two numbers, two truth values, or nil and nil. Both operands are values, so
no operator spares its right one.
-/

namespace Scriptlet

namespace Operator

/-- An operator between two numbers. Only a quotient by zero is refused; a remainder by zero is not
a number. -/
def onNumbers (op : Operator) (x y : Float) : Except RuntimeError.Cause Value :=
  match op with
  | add => .ok (.number (x + y))
  | sub => .ok (.number (x - y))
  | mul => .ok (.number (x * y))
  | div => if y == 0.0 then .error .divisionByZero else .ok (.number (x / y))
  | rem => .ok (.number (Number.remainder x y))
  | less => .ok (.bool (x < y))
  | greater => .ok (.bool (x > y))
  | lessEqual => .ok (.bool (x ≤ y))
  | greaterEqual => .ok (.bool (x ≥ y))
  | equal => .ok (.bool (x == y))
  | notEqual => .ok (.bool (x != y))
  | and | or => .error (.operandTypes op .number .number)

/-- An operator between two truth values. -/
def onBools (op : Operator) (a b : Bool) : Except RuntimeError.Cause Value :=
  match op with
  | and => .ok (.bool (a && b))
  | or => .ok (.bool (a || b))
  | equal => .ok (.bool (a == b))
  | notEqual => .ok (.bool (a != b))
  | _ => .error (.operandTypes op .bool .bool)

/-- An operator between nil and nil. -/
def onNils (op : Operator) : Except RuntimeError.Cause Value :=
  match op with
  | equal => .ok (.bool true)
  | notEqual => .ok (.bool false)
  | _ => .error (.operandTypes op .nil .nil)

/-- An operator between two values. -/
def apply (op : Operator) (left right : Value) : Except RuntimeError.Cause Value :=
  match left, right with
  | .number x, .number y => op.onNumbers x y
  | .bool a, .bool b => op.onBools a b
  | .nil, .nil => op.onNils
  | l, r => .error (.operandTypes op l.type r.type)

end Operator

/-- The negation of a value. -/
def Value.negate (v : Value) : Except RuntimeError.Cause Value :=
  match v.asBool "'!'" with
  | .ok b => .ok (.bool (!b))
  | .error c => .error c

end Scriptlet
