import Scriptlet.Run
import Scriptlet.Proofs.Eval.Invariant

/-! # Evaluations stay in their region

If a program and the bodies of all functions in the store lie in a region, then so do the bodies of
the functions that its evaluation leaves in the store and gives as values (`confinement`). A new
machine has no function of a program, so it lies in every region.
-/

namespace Scriptlet

variable {R : Region}

/-- The body of a function lies in the region. -/
def Value.In (R : Region) : Value → Prop
  | .function f => R.body f.body
  | _ => True

/-- A value that refers to no scope is no function. -/
theorem Value.In.of_below {v : Value} (h : v.Below 0) : v.In R := by
  cases v with
  | function f => exact absurd h (Nat.not_lt_zero _)
  | _ => trivial

/-- The functions that a store binds have their bodies in the region. -/
def Store.In (R : Region) (s : Store) : Prop :=
  ∀ id x b, s.local? id x = some b → b.value.In R

theorem Store.in_empty : Store.empty.In R := by
  intro id x b h
  simp [Store.local?, Store.scope?, Store.empty] at h

theorem Store.In.push {s : Store} (h : s.In R) (parent : Option ScopeId) :
    (s.push parent).In R := by
  intro id x b hb
  rw [local?_push] at hb
  exact h id x b hb

/-- Declaring a value of the region keeps the store in it. -/
theorem Store.In.declare {s s' : Store} {id : ScopeId} {x : String} {v : Value} {constant : Bool}
    (h : s.In R) (hv : v.In R) (hdeclare : s.declare id x v constant = .ok s') : s'.In R := by
  intro id' y b hb
  rcases local?_of_declare hdeclare hb with hold | rfl
  · exact h id' y b hold
  · exact hv

theorem Store.In.assign {s s' : Store} {id : ScopeId} {x : String} {v : Value} (h : s.In R)
    (hv : v.In R) (hassign : s.assign id x v = .ok s') : s'.In R := by
  intro id' y b hb
  rcases local?_of_assign hassign hb with hold | rfl
  · exact h id' y b hold
  · exact hv

/-- The bodies of functions lie in the region. They do not depend on the scopes that there are, so
there is one world. -/
def confinement (R : Region) : Invariant R where
  World := Unit
  Later _ _ := True
  store _ s := s.In R
  value _ v := v.In R
  scope _ _ := True
  later_refl _ := trivial
  later_trans _ _ := trivial
  value_later _ hv := hv
  scope_later _ _ := trivial
  plain := .of_below
  function := ⟨fun h => ⟨trivial, h, fun _ _ => trivial⟩, fun h => h.2.1⟩
  found hs _ _ hb := by
    obtain ⟨owner, -, hlocal⟩ := Store.local?_of_find? hb
    exact hs owner _ _ hlocal
  push hs _ := ⟨(), trivial, hs.push _, trivial⟩
  declare hs _ _ hv hdeclare := ⟨(), trivial, hs.declare hv hdeclare⟩
  assign hs _ _ hv hassign := ⟨(), trivial, hs.assign hv hassign⟩

/-- What the host provides has no body, so a new machine lies in every region. -/
theorem Machine.global_in (R : Region) (output : SinkBehaviour) :
    (Machine.global output).store.In R := by
  -- the host declares at no position of a text, which the bodies in the store do not depend on
  let anywhere : Region := { R with
    pos := fun _ => True
    expr_pos := fun _ => trivial
    stmt_pos := fun _ => trivial }
  have hkeeps : Eval.Keeps (confinement anywhere) () (Eval.globalScope .console)
      (fun _ _ => True) := by
    refine Eval.keeps_bind (Eval.keeps_newScope fun _ _ => trivial) fun scope _ _ hscope => ?_
    refine Eval.keeps_bind (Eval.keeps_install hscope .console (fun _ _ => trivial) trivial)
      fun _ _ _ _ => ?_
    exact Eval.keeps_pure trivial
  have hend := hkeeps (.fresh output) Store.in_empty
  rw [Machine.global]
  cases hglobal : Eval.globalScope .console (.fresh output) with
  | done scope m | failed e m =>
    rw [hglobal] at hend
    obtain ⟨_, -, hstore, -⟩ := hend
    exact hstore
  | unfinished => exact Store.in_empty

end Scriptlet
