import Scriptlet.RuntimeError

/-! # The store of scopes

Scopes are kept in a store and named by their number. A scope binds names to values, each as a
constant or not, and may have a parent, which was made before it: the search for a name walks
outwards along parents and therefore along falling numbers. Nothing is ever removed from a store.
-/

namespace Scriptlet

/-- A value bound to a name, and whether the name is constant. -/
structure Binding where
  value : Value
  constant : Bool

/-- The names of one scope and the scope around it. -/
structure Scope where
  bindings : List (String × Binding)
  parent : Option ScopeId

namespace Scope

/-- The binding of a name in this scope alone. -/
def find? (s : Scope) (name : String) : Option Binding :=
  s.bindings.lookup name

/-- Whether this scope itself binds a name. -/
def binds (s : Scope) (name : String) : Bool :=
  (s.find? name).isSome

/-- Adds a binding. -/
def add (s : Scope) (name : String) (b : Binding) : Scope :=
  { s with bindings := (name, b) :: s.bindings }

/-- Gives a bound name another value. -/
def setValue (s : Scope) (name : String) (v : Value) : Scope :=
  { s with
    bindings := s.bindings.map fun entry =>
      if entry.1 == name then (entry.1, { entry.2 with value := v }) else entry }

/-- The bound names in alphabetical order. -/
def names (s : Scope) : List String :=
  (s.bindings.map (·.1)).mergeSort fun a b => decide (a ≤ b)

/-- A scope as listings show it: its names and whether it has a parent. -/
def listing (s : Scope) : String :=
  "Environment \x7b names: " ++ Text.quoteList s.names ++ ", has_parent: " ++
    (if s.parent.isSome then "true" else "false") ++ " \x7d"

end Scope

/-- All scopes made so far. -/
structure Store where
  scopes : Array Scope

namespace Store

/-- The store without scopes. -/
def empty : Store := ⟨#[]⟩

/-- The scope with a number. -/
def scope? (s : Store) (id : ScopeId) : Option Scope :=
  s.scopes[id]?

/-- The number that the next scope gets. -/
def nextId (s : Store) : ScopeId :=
  s.scopes.size

/-- Makes a scope without names. -/
def push (s : Store) (parent : Option ScopeId) : Store :=
  ⟨s.scopes.push ⟨[], parent⟩⟩

/-- The parent of a scope. -/
def parent? (s : Store) (id : ScopeId) : Option ScopeId :=
  (s.scope? id).bind (·.parent)

/-- The binding of a name in the scope itself. -/
def local? (s : Store) (id : ScopeId) (name : String) : Option Binding :=
  (s.scope? id).bind (·.find? name)

/-- Whether the scope itself binds a name. -/
def binds (s : Store) (id : ScopeId) (name : String) : Bool :=
  (s.local? id name).isSome

/-- Whether the scope itself binds a name as a constant. -/
def isConstant (s : Store) (id : ScopeId) (name : String) : Bool :=
  (s.local? id name).any (·.constant)

/-- The nearest scope that binds a name, from the given one outwards. -/
def resolve? (s : Store) (name : String) (id : ScopeId) : Option ScopeId :=
  if s.binds id name then some id
  else
    match s.parent? id with
    | some p => if p < id then s.resolve? name p else none
    | none => none
termination_by id

/-- The binding that a name has from a scope on. -/
def find? (s : Store) (id : ScopeId) (name : String) : Option Binding :=
  (s.resolve? name id).bind (s.local? · name)

/-- Changes one scope. -/
def update (s : Store) (id : ScopeId) (f : Scope → Scope) : Store :=
  ⟨s.scopes.modify id f⟩

/-- The value that a name has from a scope on. -/
def lookup (s : Store) (id : ScopeId) (name : String) : Except RuntimeError.Cause Value :=
  match s.find? id name with
  | some b => .ok b.value
  | none => .error (.unresolved name)

/-- Binds a name in the scope itself, which must not bind it yet. -/
@[inline] def declare (s : Store) (id : ScopeId) (name : String) (v : Value) (constant : Bool) :
    Except RuntimeError.Cause Store :=
  if s.binds id name then .error (.redeclared name)
  else .ok (s.update id (·.add name ⟨v, constant⟩))

/-- Gives a name another value in the nearest scope that binds it, which must not bind it as a
constant. -/
@[inline] def assign (s : Store) (id : ScopeId) (name : String) (v : Value) :
    Except RuntimeError.Cause Store :=
  match s.resolve? name id with
  | some owner =>
    if s.isConstant owner name then .error (.constantAssigned name)
    else .ok (s.update owner (·.setValue name v))
  | none => .error (.unresolved name)

end Store

end Scriptlet
