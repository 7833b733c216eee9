import Scriptlet.Eval.Machine

/-! # Host functions

The host provides `println`, which prints its arguments on one line, and `assert`, which takes a
truth value and fails unless it is true. `install` binds them in a scope together with the names of
the two truth values and of nil, all as constants. The evaluator asks a `Host` to answer calls of
host functions; the functions here are the host that programs run on.
-/

namespace Scriptlet

namespace Native

/-- The line that `println` prints for its arguments. -/
def lineOf (arguments : List Value) : String :=
  " ".intercalate (arguments.map Value.text)

/-- Runs a host function. -/
def run (f : Native) (arguments : List Value) (pos : Position) : Eval Value :=
  match f.kind with
  | .println =>
    match f.channel with
    | .console => do
      Eval.print (lineOf arguments) pos
      pure .nil
    | .discarded => pure .nil
  | .assert =>
    match arguments with
    | [v] => do
      let holds ← Eval.ofExcept pos (v.asBool NativeKind.assert.name)
      if holds then pure v else Eval.fail .assertionFailed pos
    | vs => Eval.fail (.arityMismatch NativeKind.assert.name 1 vs.length) pos

/-- Runs a host function after comparing the number of arguments with the number it takes. -/
def call (f : Native) (arguments : List Value) (pos : Position) : Eval Value :=
  match f.kind.arity? with
  | some n =>
    if n = arguments.length then f.run arguments pos
    else Eval.fail (.arityMismatch f.kind.name n arguments.length) pos
  | none => f.run arguments pos

/-- The constants that the host provides besides its functions. -/
def constants : List (String × Value) :=
  [("true", .bool true), ("false", .bool false), ("nil", .nil)]

/-- What the host binds in a scope, in this order. -/
def bindings (scope : ScopeId) (channel : Channel) : List (String × Value) :=
  constants ++ NativeKind.all.map fun kind => (kind.name, .native ⟨kind, scope, channel⟩)

/-- Binds everything that the host provides in a scope; the first name that the scope binds already
ends it. -/
def install (scope : ScopeId) (channel : Channel) : Eval Unit :=
  Eval.declareAll scope true .nowhere (bindings scope channel)

end Native

/-- How the host answers calls of its functions: each is given the arguments, the scope that it is
called from and the position of the call. -/
class Host where
  call : Native → List Value → ScopeId → Position → Eval Value

/-- The host functions that are provided here do not look at the scope they are called from. -/
instance Host.standard : Host where
  call f arguments _ pos := f.call arguments pos

end Scriptlet
