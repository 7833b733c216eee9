import Scriptlet.Value

/-! # Why a program stops

The causes for which running a program ends early, each with the position at which it arose.
-/

namespace Scriptlet

/-- Why a line could not be printed, and what the output says about it. -/
inductive SinkFault where
  /-- The line could not be written at all. -/
  | unwritten (details : String)
  /-- The line was written but not passed on. -/
  | unflushed (details : String)
deriving DecidableEq

/-- How messages name a fault of the output. -/
def SinkFault.text : SinkFault → String
  | unwritten details | unflushed details => details

/-- Why a program stops. -/
inductive RuntimeError.Cause where
  | unresolved (name : String)
  | redeclared (name : String)
  | constantAssigned (name : String)
  /-- Operands of types between which the operator is not defined. -/
  | operandTypes (op : Operator) (left right : ValueType)
  /-- A value that is not a truth value where `context` needs one. -/
  | boolExpected (context : String) (found : ValueType)
  | divisionByZero
  /-- A call of something that is not a function. -/
  | notCallable (text : String) (type : ValueType)
  /-- An assignment to something that is not a name. -/
  | invalidTarget (found : NodeKind)
  /-- More nested calls than the limit. -/
  | depthExceeded (limit : Nat)
  | arityMismatch (name : String) (expected found : Nat)
  | assertionFailed
  | outputFailed (fault : SinkFault)
deriving DecidableEq

/-- A cause and where it arose. -/
structure RuntimeError where
  cause : RuntimeError.Cause
  pos : Position
deriving DecidableEq

/-- The truth value that a value is; `context` names who needs one. -/
def Value.asBool (context : String) : Value → Except RuntimeError.Cause Bool
  | .bool b => .ok b
  | v => .error (.boolExpected context v.type)

end Scriptlet
