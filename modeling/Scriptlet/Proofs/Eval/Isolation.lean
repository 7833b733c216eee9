import Scriptlet.Proofs.Eval.Scopes
import Scriptlet.Proofs.Eval.Transport

/-! # Scopes out of reach

A program reaches a scope from the one it runs in by going outwards and by way of the functions that
the scopes on its way bind. Evaluations make scopes, bind functions and pass them on, but they do
not come to reach a scope that was there before and out of reach (`separation`): such a scope stays
as it is, and whatever it binds, the evaluation ends in the same way (`Isolated`).
-/

namespace Scriptlet

/-- The scope that a function was declared in is one of the given ones. -/
def Value.Over (S : ScopeId → Prop) : Value → Prop
  | .function f => S f.closure
  | _ => True

theorem Value.Over.mono {S S' : ScopeId → Prop} (hS : ∀ id, S id → S' id) {v : Value}
    (h : v.Over S) : v.Over S' := by
  cases v with
  | function f => exact hS f.closure h
  | _ => trivial

theorem Value.Over.of_below {S : ScopeId → Prop} {v : Value} (h : v.Below 0) : v.Over S := by
  cases v with
  | function f => exact absurd h (Nat.not_lt_zero _)
  | _ => trivial

namespace Store

/-- The scopes that lead on from the given ones: outwards, and to where a function that one of them
binds was declared. -/
inductive Reachable (s : Store) (roots : ScopeId → Prop) : ScopeId → Prop
  | root {id : ScopeId} : roots id → Reachable s roots id
  | parent {id p : ScopeId} : Reachable s roots id → s.parent? id = some p → Reachable s roots p
  | closure {id : ScopeId} {x : String} {f : Function} {constant : Bool} :
      Reachable s roots id → s.local? id x = some ⟨.function f, constant⟩ →
      Reachable s roots f.closure

/-- Scopes of a store that lead to themselves only, and a scope that is not one of them. -/
structure Separated (u : ScopeId) (S : ScopeId → Prop) (s : Store) : Prop where
  made : u < s.nextId
  apart : ¬ S u
  outward : ∀ id p, S id → s.parent? id = some p → S p
  closures : ∀ id x b, S id → s.local? id x = some b → b.value.Over S

theorem separated_reachable {s : Store} {roots : ScopeId → Prop} {u : ScopeId} (hu : u < s.nextId)
    (hreach : ¬ s.Reachable roots u) : s.Separated u (s.Reachable roots) where
  made := hu
  apart := hreach
  outward _ _ hid hp := .parent hid hp
  closures id x b hid hb := by
    obtain ⟨v, constant⟩ := b
    cases v with
    | function f => exact .closure hid hb
    | _ => trivial

/-- The reachable scopes are the fewest that lead to themselves only. -/
theorem Separated.reachable {s : Store} {u : ScopeId} {S roots : ScopeId → Prop}
    (h : s.Separated u S) (hroots : ∀ id, roots id → S id) {id : ScopeId}
    (hreach : s.Reachable roots id) : S id := by
  induction hreach with
  | root hid => exact hroots _ hid
  | parent _ hp ih => exact h.outward _ _ ih hp
  | closure _ hb ih => exact h.closures _ _ _ ih hb

namespace Separated

variable {u : ScopeId} {S : ScopeId → Prop} {s s' : Store}

theorem ne (h : s.Separated u S) {id : ScopeId} (hid : S id) : u ≠ id := by
  rintro rfl
  exact h.apart hid

/-- A new scope may be added to those that lead to themselves. -/
theorem push (h : s.Separated u S) {parent : Option ScopeId} (hparent : ∀ p ∈ parent, S p) :
    (s.push parent).Separated u fun id => S id ∨ id = s.nextId where
  made := by
    rw [nextId_push]
    exact Nat.lt_succ_of_lt h.made
  apart := by
    rintro (hu | rfl)
    · exact h.apart hu
    · exact absurd h.made (Nat.lt_irrefl _)
  outward id p hid hp := by
    rw [parent?_push] at hp
    by_cases hnew : id = s.nextId
    · rw [if_pos hnew] at hp
      exact Or.inl (hparent p hp)
    · rw [if_neg hnew] at hp
      exact Or.inl (h.outward id p (hid.resolve_right hnew) hp)
  closures id x b hid hb := by
    rw [local?_push] at hb
    rcases hid with hid | rfl
    · exact (h.closures id x b hid hb).mono fun _ => Or.inl
    · -- the new scope binds nothing
      rw [local?, scope?_nextId] at hb
      cases hb

/-- Binding a value that leads to the given scopes keeps a scope apart from them. -/
theorem bind (h : s.Separated u S) {v : Value} (hv : v.Over S) (hnext : s'.nextId = s.nextId)
    (hparents : ∀ id, s'.parent? id = s.parent? id)
    (hlocals : ∀ id x b, s'.local? id x = some b → s.local? id x = some b ∨ b.value = v) :
    s'.Separated u S where
  made := by
    rw [hnext]
    exact h.made
  apart := h.apart
  outward id p hid hp := by
    rw [hparents] at hp
    exact h.outward id p hid hp
  closures id x b hid hb := by
    rcases hlocals id x b hb with hold | rfl
    · exact h.closures id x b hid hold
    · exact hv

end Separated

/-- A scope stays apart from the scopes of the program that runs. The worlds are those scopes, to
which calls add new ones. -/
def separation (u : ScopeId) : Invariant .all where
  World := ScopeId → Prop
  Later S S' := ∀ id, S id → S' id
  store S s := s.Separated u S
  value S v := v.Over S
  scope S id := S id
  later_refl _ _ hid := hid
  later_trans h h' id hid := h' id (h id hid)
  value_later h hv := hv.mono h
  scope_later h hid := h _ hid
  plain := .of_below
  function := (and_iff_left ⟨trivial, fun _ _ => trivial⟩).symm
  found hs hid _ hb := by
    obtain ⟨owner, howner, hlocal⟩ := local?_of_find? hb
    exact hs.closures owner _ _ (mem_of_resolve? hs.outward hid howner) hlocal
  push hs hparent := ⟨_, fun _ => Or.inl, hs.push hparent, Or.inr rfl⟩
  declare {S s s' id x v constant} hs _ _ hv hdeclare := by
    have hupdate := eq_update_of_declare hdeclare
    refine ⟨S, fun _ hid => hid, hs.bind hv ?_ ?_ fun _ _ _ => local?_of_declare hdeclare⟩
    · rw [hupdate, nextId_update]
    · rw [hupdate]
      exact parent?_update fun _ => rfl
  assign {S s s' id x v} hs _ _ hv hassign := by
    obtain ⟨hnext, hparents, -⟩ := assign_eq_ok hassign
    exact ⟨S, fun _ hid => hid, hs.bind hv hnext hparents fun _ _ _ => local?_of_assign hassign⟩

/-! ## Replacing a scope -/

/-- The store with another scope in place of one. -/
def replace (s : Store) (u : ScopeId) (scope : Scope) : Store :=
  s.update u fun _ => scope

theorem scope?_replace_of_ne (s : Store) {u id : ScopeId} (scope : Scope) (h : u ≠ id) :
    (s.replace u scope).scope? id = s.scope? id := by
  rw [replace, scope?_update, if_neg h]

theorem scope?_replace_self {s : Store} {u : ScopeId} (scope : Scope) (hu : u < s.nextId) :
    (s.replace u scope).scope? u = some scope := by
  obtain ⟨old, hold⟩ := Option.isSome_iff_exists.mp (scope?_isSome_iff.mpr hu)
  rw [replace, scope?_update, if_pos rfl, hold, Option.map_some]

theorem replace_eq_self {s : Store} {u : ScopeId} {scope : Scope} (h : s.scope? u = some scope) :
    s.replace u scope = s := by
  apply ext_scope?
  intro id
  by_cases hid : u = id
  · rw [← hid, h]
    exact scope?_replace_self scope (scope?_isSome_iff.mp (Option.isSome_iff_exists.mpr ⟨_, h⟩))
  · exact scope?_replace_of_ne s scope hid

end Store

/-- Replacing a scope that stays apart changes nothing else. -/
def Transport.replacing (u : ScopeId) (scope : Scope) : Transport (Store.separation u) :=
  .ofScopes id (·.replace u scope) id
    (fun hs => Store.mirrors_of_eq hs.outward
      (fun _ hid => congrArg (Option.bind · _) (Store.scope?_replace_of_ne _ scope (hs.ne hid)))
      (fun _ _ hid _ => congrArg (Option.bind · _) (Store.scope?_replace_of_ne _ scope (hs.ne hid))))
    (fun _ => Store.nextId_update _ _ _)
    (fun hs => Store.update_push _ hs.made _)
    (fun b hs hid _ => by
      rw [b.relocate_id]
      exact Store.update_update_comm fun hu => absurd hu (hs.ne hid))
    (fun v hs hid _ => by
      rw [v.relocate_id]
      exact Store.update_update_comm fun hu => absurd hu (hs.ne hid))
    Sink.print_id

/-- The machine with another scope in place of one. -/
def Machine.replace (m : Machine) (u : ScopeId) (scope : Scope) : Machine :=
  { m with store := m.store.replace u scope }

/-! ## Isolation -/

/-- An evaluation leaves a scope as it is. If the scope is replaced beforehand, by one with any
other bindings, then the evaluation ends with the same value or error, the same output and the same
scopes, the replaced one apart. -/
def Isolated {α : Type} (u : ScopeId) (x : Eval α) (m : Machine) : Prop :=
  (∀ m', (x m).EndsIn m' → m'.store.scope? u = m.store.scope? u) ∧
    ∀ scope, x (m.replace u scope) = (x m).mapMachine (·.replace u scope)

section Isolation

open Eval Store

variable {u : ScopeId} {S : ScopeId → Prop} {m : Machine} {limit fuel : Nat}

/-- An evaluation that keeps a scope apart, and goes on as before if the scope is replaced, is
isolated from it. -/
theorem isolated_of_carries {x : Eval Value} {post : (separation u).World → Value → Prop}
    (hm : m.store.Separated u S) (hkeeps : Keeps (separation u) S x post)
    (hcarries : ∀ scope, Carries (.replacing u scope) S (Value.relocate id) x x) :
    Isolated u x m := by
  have hreplaced (scope : Scope) : x (m.replace u scope) = (x m).mapMachine (·.replace u scope) :=
    (hcarries scope m hm).trans (Transport.outcome_eq_mapMachine rfl (x m))
  refine ⟨fun m' hends => ?_, hreplaced⟩
  obtain ⟨scope, hscope⟩ := Option.isSome_iff_exists.mp (scope?_isSome_iff.mpr hm.made)
  have hend := hkeeps m hm
  -- the scope replaced by itself shows what the evaluation leaves in its place
  have hself : m.replace u scope = m := by rw [Machine.replace, replace_eq_self hscope]
  have hsame := hreplaced scope
  rw [hself] at hsame
  have hmade : u < m'.store.nextId ∧ m' = m'.replace u scope := by
    cases hxm : x m with
    | done a m₁ | failed e m₁ =>
      rw [hxm] at hends hend hsame
      cases hends
      obtain ⟨S', -, hm₁, -⟩ := hend
      refine ⟨hm₁.made, ?_⟩
      injection hsame
    | unfinished =>
      rw [hxm] at hends
      exact hends.elim
  rw [hscope, hmade.2]
  exact scope?_replace_self scope hmade.1

theorem isolated_evalStmt (hm : m.store.Separated u S) {scope : ScopeId} (hscope : S scope)
    (s : Stmt) : Isolated u (evalStmt limit fuel scope s) m := by
  refine isolated_of_carries hm ((keepsWith (separation u) limit fuel).stmt hscope trivial) ?_
  intro other
  have hcarries : Carries (.replacing u other) S (Value.relocate id) (evalStmt limit fuel scope s)
      (evalStmt limit fuel scope (s.relocate id)) :=
    (carriesWith (.replacing u other) limit fuel).stmt hscope trivial
  rwa [Stmt.relocate_id] at hcarries

theorem isolated_evalBlock (hm : m.store.Separated u S) {scope : ScopeId} (hscope : S scope)
    (ss : List Stmt) : Isolated u (evalBlock limit fuel scope ss .nil) m := by
  refine isolated_of_carries hm
    ((keepsWith (separation u) limit fuel).block hscope (fun _ _ => trivial) trivial) ?_
  intro other
  have hcarries : Carries (.replacing u other) S (Value.relocate id)
      (evalBlock limit fuel scope ss .nil)
      (evalBlock limit fuel scope (Program.relocate id ss) .nil) :=
    (carriesWith (.replacing u other) limit fuel).block hscope fun _ _ => trivial
  rwa [Program.relocate_id] at hcarries

theorem isolated_callFunction (hm : m.store.Separated u S) {f : Function} {arguments : List Value}
    (hf : S f.closure) (harguments : ∀ v ∈ arguments, v.Over S) (pos : Position) :
    Isolated u (callFunction limit fuel f arguments pos) m := by
  refine isolated_of_carries hm
    ((keepsWith (separation u) limit fuel).call hf harguments trivial) ?_
  intro other
  have hcarries : Carries (.replacing u other) S (Value.relocate id)
      (callFunction limit fuel f arguments pos)
      (callFunction limit fuel { f with body := Program.relocate id f.body }
        (arguments.map (Value.relocate id)) pos) :=
    (carriesWith (.replacing u other) limit fuel).call hf harguments trivial
  have hsame : arguments.map (Value.relocate id) = arguments :=
    (List.map_congr_left fun v _ => v.relocate_id).trans (List.map_id arguments)
  rwa [Program.relocate_id, hsame] at hcarries

/-- Evaluations are isolated from the scopes that are out of their reach. A statement, a block and a
program reach what the scope they run in leads to; a call reaches what the function and the
arguments lead to, so that it neither sees nor changes a local scope of its caller that none of them
was declared in. The host is the standard one, whose functions look at no scope; another host may
look into the scope that its function is called from, and what is out of reach would not be isolated
from it. -/
theorem unreachable_isolated (hu : u < m.store.nextId) (limit fuel : Nat) :
    (∀ scope, ¬ m.store.Reachable (· = scope) u →
        (∀ s, Isolated u (evalStmt limit fuel scope s) m) ∧
          (∀ ss, Isolated u (evalBlock limit fuel scope ss .nil) m) ∧
          ∀ p, Isolated u (Program.eval limit fuel scope p) m) ∧
      ∀ f arguments pos,
        ¬ m.store.Reachable (fun id => ∃ g, .function g ∈ .function f :: arguments ∧ g.closure = id)
          u →
        Isolated u (callFunction limit fuel f arguments pos) m := by
  refine ⟨fun scope hreach => ?_, fun f arguments pos hreach => ?_⟩
  · have hm := separated_reachable hu hreach
    have hscope : m.store.Reachable (· = scope) scope := .root rfl
    exact ⟨isolated_evalStmt hm hscope, isolated_evalBlock hm hscope, isolated_evalBlock hm hscope⟩
  · have hm := separated_reachable hu hreach
    refine isolated_callFunction hm (.root ⟨f, List.mem_cons_self, rfl⟩) (fun v hv => ?_) pos
    cases v with
    | function g => exact .root ⟨g, List.mem_cons_of_mem _ hv, rfl⟩
    | _ => trivial

/-- A scope with a variable, and below it the local scope of a call with a variable of that name. -/
def callerMachine : Machine :=
  { Machine.bare .none with
    store := ⟨#[⟨[("x", ⟨.bool true, false⟩)], none⟩, ⟨[("x", ⟨.bool false, false⟩)], some 0⟩]⟩ }

/-- A function of the outer scope that changes the variable it sees. -/
def flipFunction : Function :=
  ⟨"flip", [], [.expr (.assign (.identifier "x" .nowhere) (.not (.identifier "x" .nowhere) .nowhere)
    .nowhere)], 0⟩

/-- The function does not see the variable of its caller. -/
theorem caller_isolated :
    1 < callerMachine.store.nextId ∧
      ¬ callerMachine.store.Reachable
        (fun id => ∃ g, .function g ∈ [Value.function flipFunction] ∧ g.closure = id) 1 ∧
      Isolated 1 (callFunction 1 9 flipFunction [] .nowhere) callerMachine := by
  have hmade : 1 < callerMachine.store.nextId := by decide
  -- the outer scope has no parent and binds no function
  have houter : callerMachine.store.Separated 1 (· = 0) :=
    { made := hmade
      apart := by decide
      outward := by
        rintro _ p rfl hp
        cases hp
      closures := by
        rintro _ x ⟨v, constant⟩ rfl hb
        have hfind : [("x", (⟨.bool true, false⟩ : Binding))].lookup x = some ⟨v, constant⟩ := hb
        rw [Scope.lookup_cons_ite] at hfind
        by_cases hx : x = "x"
        · rw [if_pos hx] at hfind
          cases hfind
          trivial
        · rw [if_neg hx] at hfind
          cases hfind }
  have hreach : ¬ callerMachine.store.Reachable
      (fun id => ∃ g, .function g ∈ [Value.function flipFunction] ∧ g.closure = id) 1 := by
    intro hone
    refine absurd (houter.reachable ?_ hone) (by decide)
    rintro id ⟨g, hg, rfl⟩
    cases List.mem_singleton.mp hg
    rfl
  exact ⟨hmade, hreach, (unreachable_isolated hmade 1 9).2 flipFunction [] .nowhere hreach⟩

end Isolation

end Scriptlet
