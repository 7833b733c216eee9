import Scriptlet.RuntimeError

/-! # The output of a program

A sink takes the lines that a program prints. Printing writes a line and then flushes it, and either
step may fail; when it does is up to the behaviour of the sink, which may depend on all that the sink
was given before. Every line is kept with the position of the call that printed it.
-/

namespace Scriptlet

/-- A printed line, without its line break, and the position of the call that printed it. -/
structure PrintedLine where
  text : String
  pos : Position
deriving DecidableEq

/-- How a sink behaves: which step fails for a text, if any. This may depend on how many flushes have
succeeded and on the texts that the sink was given before, the last one first. -/
structure SinkBehaviour where
  fault? : (flushed : Nat) → (before : List String) → (text : String) → Option SinkFault

namespace SinkBehaviour

/-- A sink that never fails. -/
def none : SinkBehaviour := ⟨fun _ _ _ => .none⟩

/-- A sink that has the given fault at every line once `n` flushes have succeeded, and no fault
before. -/
def after (n : Nat) (fault : SinkFault) : SinkBehaviour :=
  ⟨fun flushed _ _ => if n ≤ flushed then some fault else .none⟩

/-- A sink that fails where one of two would, with the fault of the first if both do. -/
def orElse (b b' : SinkBehaviour) : SinkBehaviour :=
  ⟨fun flushed before text => (b.fault? flushed before text).or (b'.fault? flushed before text)⟩

end SinkBehaviour

/-- After how many successful flushes writes and flushes start to fail, if ever. -/
structure SinkLimits where
  writes : Option Nat
  flushes : Option Nat

/-- The behaviour of a sink with these limits. -/
def SinkLimits.behaviour (limits : SinkLimits) : SinkBehaviour :=
  .orElse (limits.writes.elim .none (.after · (.unwritten "closed")))
    (limits.flushes.elim .none (.after · (.unflushed "not flushed")))

instance : Coe SinkLimits SinkBehaviour := ⟨SinkLimits.behaviour⟩

/-- The lines taken so far, the number of successful flushes, the texts that were given to the sink,
whether it took them or not, and how it behaves. -/
structure Sink where
  lines : Array PrintedLine
  flushed : Nat
  given : List String
  behaviour : SinkBehaviour

namespace Sink

/-- A sink that has taken no line. -/
def fresh (behaviour : SinkBehaviour) : Sink := ⟨#[], 0, [], behaviour⟩

/-- Adds a line that has been written but not flushed. -/
def write (s : Sink) (line : PrintedLine) : Sink :=
  { s with lines := s.lines.push line }

/-- Takes a line, and says which step failed. -/
def print (s : Sink) (line : PrintedLine) : Option SinkFault × Sink :=
  let tried := { s with given := line.text :: s.given }
  match s.behaviour.fault? s.flushed s.given line.text with
  | some (.unwritten details) => (some (.unwritten details), tried)
  | some (.unflushed details) => (some (.unflushed details), tried.write line)
  | none => (none, { tried.write line with flushed := s.flushed + 1 })

/-- All text taken so far. -/
def text (s : Sink) : String :=
  s.lines.foldl (fun acc line => acc ++ line.text ++ "\n") ""

/-- The sink after its lines have been read off. -/
def drained (s : Sink) : Sink :=
  { s with lines := #[] }

end Sink

end Scriptlet
