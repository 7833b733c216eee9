import Scriptlet.Proofs.Eval.Confined
import Scriptlet.Proofs.Eval.Transport

/-! # Running programs with other positions

Positions are in trees, and so in the bodies of functions that a store binds, in errors, and with
printed lines. Running a program does not depend on them: to change all of them before a run is to
change them after it, whatever the change (`Program.eval_relocate`).
-/

namespace Scriptlet

/-- The store with all the positions in its values changed. -/
def Store.relocate (f : Position → Position) (s : Store) : Store :=
  ⟨s.scopes.map (Scope.relocate f)⟩

/-- The sink with the positions of its lines changed. -/
def Sink.relocate (f : Position → Position) (s : Sink) : Sink :=
  { s with lines := s.lines.map fun line => { line with pos := f line.pos } }

/-- The machine with all its positions changed. -/
def Machine.relocate (f : Position → Position) (m : Machine) : Machine :=
  { m with store := m.store.relocate f, sink := m.sink.relocate f }

/-- The error at another position. -/
def RuntimeError.relocate (f : Position → Position) (e : RuntimeError) : RuntimeError :=
  { e with pos := f e.pos }

/-- The outcome with all its positions changed. -/
def Outcome.relocate (f : Position → Position) :
    Outcome RuntimeError Value → Outcome RuntimeError Value :=
  .mapParts (.relocate f) (.relocate f) (.relocate f)

section

variable (f g : Position → Position)

/-- Scopes keep their numbers. -/
theorem Store.scope?_relocate (s : Store) (id : ScopeId) :
    (s.relocate f).scope? id = (s.scope? id).map (Scope.relocate f) :=
  Array.getElem?_map

theorem Store.nextId_relocate (s : Store) : (s.relocate f).nextId = s.nextId :=
  Array.size_map

theorem Store.relocate_push (s : Store) (parent : Option ScopeId) :
    (s.relocate f).push parent = (s.push parent).relocate f := by
  simp only [Store.relocate, Store.push, Array.map_push]
  rfl

/-- A change of one scope goes with a relocation, if it does for each scope. -/
theorem Store.relocate_update {k k' : Scope → Scope}
    (hk : ∀ scope, k' (scope.relocate f) = (k scope).relocate f) (s : Store) (id : ScopeId) :
    (s.relocate f).update id k' = (s.update id k).relocate f := by
  apply Store.ext_scope?
  intro id'
  rw [scope?_update, scope?_relocate, scope?_relocate, scope?_update]
  by_cases hid : id = id'
  · rw [if_pos hid, if_pos hid, Option.map_map, Option.map_map]
    congr 1
    funext scope
    exact hk scope
  · rw [if_neg hid, if_neg hid]

/-- A sink looks at the text of a line and at the texts it was given before, and at no position. -/
theorem Sink.print_relocate (s : Sink) (text : String) (p : Position) :
    (s.relocate f).print ⟨text, f p⟩ = (s.print ⟨text, p⟩).map id (Sink.relocate f) := by
  have hbehaviour : (s.relocate f).behaviour.fault? (s.relocate f).flushed (s.relocate f).given text =
      s.behaviour.fault? s.flushed s.given text := rfl
  rw [Sink.print, Sink.print, hbehaviour]
  -- the behaviour is not given positions, and a line that is taken has its own changed
  cases s.behaviour.fault? s.flushed s.given text with
  | none => simp only [Sink.write, Sink.relocate, Array.map_push, Prod.map, id]
  | some fault =>
    cases fault with
    | unwritten details => rfl
    | unflushed details => simp only [Sink.write, Sink.relocate, Array.map_push, Prod.map, id]

/-- Changing all positions is a transport under no condition. -/
def Transport.relocation : Transport (confinement .all) :=
  .ofScopes f (Store.relocate f) (Sink.relocate f)
    (fun {_ s} _ => Store.mirrors_of_scope? (fun _ _ _ _ => trivial)
      fun id _ => s.scope?_relocate f id)
    (Store.nextId_relocate f) (fun {_ s parent} _ => s.relocate_push f parent)
    (fun {_ s id x} b _ _ _ => s.relocate_update f (fun scope => scope.relocate_add f x b) id)
    (fun {_ s id x} v _ _ _ => s.relocate_update f (fun scope => scope.relocate_setValue f x v) id)
    (Sink.print_relocate f)

/-- Every store has its functions from somewhere. -/
theorem Store.in_all (s : Store) : s.In .all := by
  intro id x b _
  cases b.value <;> trivial

/-- To run a program with other positions is to run it and to change the positions then. -/
theorem Program.eval_relocate (p : Program) (limit fuel : Nat) (scope : ScopeId) (m : Machine) :
    (p.relocate f).eval limit fuel scope (m.relocate f) =
      (p.eval limit fuel scope m).relocate f := by
  have hcarries : Eval.Carries (Transport.relocation f) () (Value.relocate f)
      (p.eval limit fuel scope) ((p.relocate f).eval limit fuel scope) :=
    (Eval.carriesWith (.relocation f) limit fuel).block trivial fun _ _ => trivial
  refine (hcarries m m.store.in_all).trans ?_
  cases p.eval limit fuel scope m <;> rfl

/-! ## Relocating twice, or not at all -/

theorem Scope.relocate_relocate (s : Scope) : (s.relocate f).relocate g = s.relocate (g ∘ f) := by
  simp only [Scope.relocate, List.map_map]
  congr 1
  refine List.map_congr_left fun entry _ => ?_
  simp only [Function.comp_apply, Binding.relocate, Value.relocate_relocate]

theorem Machine.relocate_relocate (m : Machine) :
    (m.relocate f).relocate g = m.relocate (g ∘ f) := by
  have hstore : (m.store.relocate f).relocate g = m.store.relocate (g ∘ f) := by
    simp only [Store.relocate, Array.map_map]
    congr 2
    funext scope
    exact scope.relocate_relocate f g
  have hsink : (m.sink.relocate f).relocate g = m.sink.relocate (g ∘ f) := by
    simp only [Sink.relocate, Array.map_map]
    rfl
  simp only [Machine.relocate, hstore, hsink]

theorem Machine.relocate_id (m : Machine) : m.relocate id = m := by
  have hstore : m.store.relocate id = m.store := by
    have hscopes : Scope.relocate id = id := funext Scope.relocate_id
    rw [Store.relocate, hscopes, Array.map_id]
  have hsink : m.sink.relocate id = m.sink := by
    have hlines : m.sink.lines.map (fun line => { line with pos := id line.pos }) = m.sink.lines :=
      Array.map_id m.sink.lines
    rw [Sink.relocate, hlines]
  rw [Machine.relocate, hstore, hsink]

end

end Scriptlet
