import Scriptlet.Diagnostic
import Scriptlet.Eval
import Scriptlet.Syntax.Parser.Statement

/-! # Running source texts

`run` takes a text through all stages: tokens, program, value. It runs in a scope of a machine and
leaves the machine to the next run, so texts can be run one after another against the same names.
-/

namespace Scriptlet

/-- How deeply calls may be nested unless another limit is given. -/
def defaultLimit : Nat := 2000

/-- More fuel than any run uses up in practice. -/
def ampleFuel : Nat := Nat.pow 2 62

namespace Outcome

/-- The outcome with its error seen as one of a wider type. -/
def mapError {ε ε' α : Type} (f : ε → ε') : Outcome ε α → Outcome ε' α
  | done a m => .done a m
  | failed e m => .failed (f e) m
  | unfinished => .unfinished

/-- The machine that an evaluation leaves, or the given one if it is unfinished. -/
def machineOr {ε α : Type} (m : Machine) : Outcome ε α → Machine
  | done _ m' | failed _ m' => m'
  | unfinished => m

end Outcome

namespace Eval

/-- Makes a scope with everything that the host provides. -/
def globalScope (channel : Channel) : Eval ScopeId := do
  let scope ← newScope none
  Native.install scope channel
  pure scope

/-- A function without statements that the host makes, with a scope of its own around it. -/
def hostFunction (name : String) (params : List String) : Eval Value := do
  let scope ← newScope none
  pure (.function ⟨name, params, [], scope⟩)

/-- A host function with a scope of its own, which prints nowhere. -/
def hostNative (kind : NativeKind) : Eval Value := do
  let scope ← globalScope .discarded
  pure (.native ⟨kind, scope, .discarded⟩)

end Eval

namespace Machine

/-- A machine without scopes. -/
def fresh (output : SinkBehaviour) : Machine := ⟨.empty, .fresh output, 0, 0⟩

/-- The number of the first scope of a machine. -/
def firstScope : ScopeId := 0

/-- A machine whose first scope has everything that the host provides. -/
def global (output : SinkBehaviour) : Machine :=
  (Eval.globalScope .console (.fresh output)).machineOr (.fresh output)

/-- A machine whose first scope has no names. -/
def bare (output : SinkBehaviour) : Machine :=
  (Eval.newScope none (.fresh output)).machineOr (.fresh output)

/-- The machine before any call is under way. -/
def rewound (m : Machine) : Machine := { m with depth := 0, deepest := 0 }

/-- The machine after its output has been read off. -/
def drained (m : Machine) : Machine := { m with sink := m.sink.drained }

end Machine

/-- Scans, parses and runs a source text in a scope. -/
def run (limit fuel : Nat) (scope : ScopeId) (source : String) (m : Machine) :
    Outcome Error Value :=
  match Token.scan source with
  | .error e => .failed (.scanning e) m
  | .ok ts =>
    match Program.ofTokens ts with
    | .error e => .failed (.parsing e) m
    | .ok p => (p.eval limit fuel scope m).mapError .running

/-- Runs a source text on a new machine with everything that the host provides. The printed text is
that of the program and, if `showValue`, its value on a line of its own. -/
def runAlone (limit fuel : Nat) (source : String) (showValue : Bool) :
    Option (Except Error Unit × String) :=
  match run limit fuel Machine.firstScope source (.global .none) with
  | .done v m => some (.ok (), if showValue then m.sink.text ++ v.text ++ "\n" else m.sink.text)
  | .failed e m => some (.error e, m.sink.text)
  | .unfinished => none

end Scriptlet
