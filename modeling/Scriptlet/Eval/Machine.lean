import Scriptlet.Sink
import Scriptlet.Store

/-! # The machine that runs programs

A machine holds what running a program can change: the store of scopes, the sink, how many calls
are under way, and the largest depth at which a call was tried. An evaluation takes a machine and
ends with a value, with an error, or without having finished because its fuel is used up; an error
keeps the machine as it was left.
-/

namespace Scriptlet

/-- What running a program can change. -/
structure Machine where
  store : Store
  sink : Sink
  /-- The number of calls under way. -/
  depth : Nat
  /-- The largest depth that a call with the right number of arguments asked for. -/
  deepest : Nat

/-- How an evaluation ends. -/
inductive Outcome (ε α : Type) where
  | done (value : α) (machine : Machine)
  | failed (error : ε) (machine : Machine)
  | unfinished

/-- An evaluation of a value of type `α`. -/
def Eval (α : Type) : Type := Machine → Outcome RuntimeError α

namespace Eval

/-- Gives a value and changes nothing. -/
@[inline] protected def pure {α : Type} (a : α) : Eval α := fun m => .done a m

/-- Evaluates in sequence; an error ends the sequence. -/
@[inline] protected def bind {α β : Type} (x : Eval α) (f : α → Eval β) : Eval β := fun m =>
  match x m with
  | .done a m => f a m
  | .failed e m => .failed e m
  | .unfinished => .unfinished

@[always_inline] instance : Monad Eval where
  pure := Eval.pure
  bind := Eval.bind

theorem pure_apply {α : Type} (a : α) (m : Machine) : (pure a : Eval α) m = .done a m := rfl

theorem bind_apply {α β : Type} (x : Eval α) (f : α → Eval β) (m : Machine) :
    (x >>= f) m =
      match x m with
      | .done a m => f a m
      | .failed e m => .failed e m
      | .unfinished => .unfinished := rfl

/-- The evaluation whose fuel is used up. -/
def unfinished {α : Type} : Eval α := fun _ => .unfinished

/-- Fails and changes nothing. -/
@[inline] def fail {α : Type} (cause : RuntimeError.Cause) (pos : Position) : Eval α := fun m =>
  .failed ⟨cause, pos⟩ m

/-- Takes over a result that needs no machine. -/
@[inline] def ofExcept {α : Type} (pos : Position) : Except RuntimeError.Cause α → Eval α
  | .ok a => pure a
  | .error cause => fail cause pos

/-- The value of a name, from a scope on. -/
def lookup (scope : ScopeId) (name : String) (pos : Position) : Eval Value := fun m =>
  match m.store.lookup scope name with
  | .ok v => .done v m
  | .error cause => .failed ⟨cause, pos⟩ m

/-- Declares a name in a scope and gives the value back. -/
def declare (scope : ScopeId) (name : String) (v : Value) (constant : Bool) (pos : Position) :
    Eval Value := fun m =>
  match m.store.declare scope name v constant with
  | .ok store => .done v { m with store }
  | .error cause => .failed ⟨cause, pos⟩ m

/-- Assigns to a name from a scope on and gives the value back. -/
def assign (scope : ScopeId) (name : String) (v : Value) (pos : Position) : Eval Value := fun m =>
  match m.store.assign scope name v with
  | .ok store => .done v { m with store }
  | .error cause => .failed ⟨cause, pos⟩ m

/-- Declares names in a scope one after another, all as constants or all as variables. -/
def declareAll (scope : ScopeId) (constant : Bool) (pos : Position) :
    List (String × Value) → Eval Unit
  | [] => pure ()
  | (name, v) :: rest => do
    let _ ← declare scope name v constant pos
    declareAll scope constant pos rest

/-- Makes a scope without names. -/
def newScope (parent : Option ScopeId) : Eval ScopeId := fun m =>
  .done m.store.nextId { m with store := m.store.push parent }

/-- Prints a line. -/
def print (text : String) (pos : Position) : Eval Unit := fun m =>
  match m.sink.print ⟨text, pos⟩ with
  | (none, sink) => .done () { m with sink }
  | (some fault, sink) => .failed ⟨.outputFailed fault, pos⟩ { m with sink }

/-- Claims one more level of nested calls, which must be free under the limit. -/
def claimDepth (limit : Nat) (pos : Position) : Eval Unit := fun m =>
  if m.depth < limit then .done () { m with deepest := max m.deepest (m.depth + 1) }
  else .failed ⟨.depthExceeded limit, pos⟩ { m with deepest := max m.deepest (m.depth + 1) }

/-- Evaluates one level deeper and comes back up, whether the evaluation succeeds or fails. -/
@[inline] def deeper {α : Type} (x : Eval α) : Eval α := fun m =>
  match x { m with depth := m.depth + 1 } with
  | .done a m => .done a { m with depth := m.depth - 1 }
  | .failed e m => .failed e { m with depth := m.depth - 1 }
  | .unfinished => .unfinished

end Eval

end Scriptlet
