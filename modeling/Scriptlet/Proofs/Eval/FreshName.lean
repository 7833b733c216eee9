import Scriptlet.Proofs.Eval.Transport
import Scriptlet.Run

/-! # Names that a program does not use

A name that occurs neither in a program nor in a function of the store is never looked up, declared
or assigned to. So a binding of it, in whatever scope, stays as it is (`spareName`), and to run the
program without the binding is to run it with the binding and to take it away afterwards
(`Transport.unbinding`).
-/

namespace Scriptlet

/-! ## The names in a tree -/

mutual

/-- The names that occur in an expression. -/
def Expr.names : Expr → List String
  | .assign target value _ => target.names ++ value.names
  | .binary _ left right _ => left.names ++ right.names
  | .not operand _ => operand.names
  | .call callee arguments _ => callee.names ++ Expr.namesAll arguments
  | .identifier x _ => [x]
  | .number _ _ | .bool _ _ => []

/-- The names that occur in expressions. -/
def Expr.namesAll : List Expr → List String
  | [] => []
  | e :: es => e.names ++ Expr.namesAll es

end

mutual

/-- The names that occur in a statement. -/
def Stmt.names : Stmt → List String
  | .declare x none _ _ => [x]
  | .declare x (some value) _ _ => x :: value.names
  | .function x params body _ => x :: params ++ Stmt.namesAll body
  | .loop _ body _ => Stmt.namesAll body
  | .whileLoop condition body _ => condition.names ++ Stmt.namesAll body
  | .expr e => e.names

/-- The names that occur in statements. -/
def Stmt.namesAll : List Stmt → List String
  | [] => []
  | s :: ss => s.names ++ Stmt.namesAll ss

end

/-- The names that occur in a program. -/
def Program.names (p : Program) : List String :=
  Stmt.namesAll p

/-- The names that occur in a function: its own, those of its parameters, and those in its body. -/
def Function.names (f : Function) : List String :=
  f.name :: f.params ++ Stmt.namesAll f.body

variable {x : String}

theorem Expr.notMem_namesAll {es : List Expr} (h : x ∉ Expr.namesAll es) :
    ∀ e ∈ es, x ∉ e.names := by
  induction es with
  | nil => exact fun _ he => absurd he List.not_mem_nil
  | cons e es ih =>
    rw [Expr.namesAll, List.mem_append, not_or] at h
    exact List.forall_mem_cons.mpr ⟨h.1, ih h.2⟩

theorem Stmt.notMem_namesAll {ss : List Stmt} (h : x ∉ Stmt.namesAll ss) :
    ∀ s ∈ ss, x ∉ s.names := by
  induction ss with
  | nil => exact fun _ hs => absurd hs List.not_mem_nil
  | cons s ss ih =>
    rw [Stmt.namesAll, List.mem_append, not_or] at h
    exact List.forall_mem_cons.mpr ⟨h.1, ih h.2⟩

/-- The trees in which a name does not occur. -/
def Region.avoiding (x : String) : Region where
  pos _ := True
  expr e := x ∉ e.names
  stmt s := x ∉ s.names
  body ss := x ∉ Stmt.namesAll ss
  expr_pos _ := trivial
  stmt_pos _ := trivial
  assign h := by
    rw [Expr.names, List.mem_append, not_or] at h
    exact h
  not h := by
    rw [Expr.names] at h
    exact h
  binary h := by
    rw [Expr.names, List.mem_append, not_or] at h
    exact h
  call h := by
    rw [Expr.names, List.mem_append, not_or] at h
    exact ⟨h.1, Expr.notMem_namesAll h.2⟩
  declare h := by
    rw [Stmt.names, List.mem_cons, not_or] at h
    exact h.2
  function h := by
    rw [Stmt.names, List.mem_append, not_or] at h
    exact h.2
  loop h := by
    rw [Stmt.names] at h
    exact Stmt.notMem_namesAll h
  whileLoop h := by
    rw [Stmt.names, List.mem_append, not_or] at h
    exact ⟨h.1, Stmt.notMem_namesAll h.2⟩
  value h := by
    rw [Stmt.names] at h
    exact h
  stmt_of_body := Stmt.notMem_namesAll

/-- The trees in which a name does not occur keep to the other names. -/
def Region.otherNames (x : String) : (Region.avoiding x).Naming where
  name y := y ≠ x
  identifier {y _} h := by
    rintro rfl
    exact h (by simp [Expr.names])
  declare {y value _ _} h := by
    rintro rfl
    cases value <;> exact h (by simp [Stmt.names])
  function {y params ss _} h := by
    refine ⟨?_, ?_⟩
    · rintro rfl
      exact h (by simp [Stmt.names])
    · rintro z hz rfl
      exact h (by simp [Stmt.names, hz])

/-- A value that is no function, or a function whose parameters and body do without a name. -/
def Value.Avoids (x : String) : Value → Prop
  | .function f => x ∉ Stmt.namesAll f.body ∧ ∀ y ∈ f.params, y ≠ x
  | _ => True

theorem Function.avoids {f : Function} (h : x ∉ f.names) : (Value.function f).Avoids x := by
  rw [Function.names, List.mem_append, List.mem_cons, not_or, not_or] at h
  obtain ⟨⟨-, hparams⟩, hbody⟩ := h
  refine ⟨hbody, ?_⟩
  rintro y hy rfl
  exact hparams hy

theorem Value.Avoids.of_below {v : Value} (h : v.Below 0) : v.Avoids x := by
  cases v with
  | function f => exact absurd h (Nat.not_lt_zero _)
  | _ => trivial

/-! ## Taking a binding away -/

namespace Scope

/-- The scope without a name. -/
def unbind (x : String) (s : Scope) : Scope :=
  { s with bindings := s.bindings.filter (·.1 ≠ x) }

theorem find?_unbind (s : Scope) {y : String} (hy : y ≠ x) : (s.unbind x).find? y = s.find? y := by
  obtain ⟨entries, parent⟩ := s
  simp only [find?, unbind]
  induction entries with
  | nil => rfl
  | cons entry entries ih =>
    obtain ⟨z, b⟩ := entry
    rw [lookup_cons_ite, ← ih]
    by_cases hz : z = x
    · rw [List.filter_cons_of_neg (by simpa using hz), if_neg (by rw [hz]; exact hy)]
    · rw [List.filter_cons_of_pos (by simpa using hz), lookup_cons_ite]

theorem add_unbind (s : Scope) {y : String} (hy : y ≠ x) (b : Binding) :
    (s.unbind x).add y b = (s.add y b).unbind x := by
  simp [add, unbind, hy]

theorem setValue_unbind (s : Scope) (y : String) (v : Value) :
    (s.unbind x).setValue y v = (s.setValue y v).unbind x := by
  simp only [setValue, unbind, List.filter_map]
  congr 2
  -- the names stay where they are
  refine List.filter_congr fun entry _ => ?_
  simp only [Function.comp_apply]
  split <;> rfl

/-- A binding that has been added can be taken away again. -/
theorem unbind_add {s : Scope} (h : s.find? x = none) (b : Binding) : (s.add x b).unbind x = s := by
  have hothers : ∀ entry ∈ s.bindings, decide (entry.1 ≠ x) = true := by
    intro entry hentry
    have hne := List.lookup_eq_none_iff.mp h entry hentry
    exact decide_eq_true (Ne.symm (bne_iff_ne.mp hne))
  simp only [add, unbind]
  rw [List.filter_cons_of_neg (by simp), List.filter_eq_self.mpr hothers]

end Scope

namespace Store

/-- The store with a name taken away from a scope. -/
def unbind (u : ScopeId) (x : String) (s : Store) : Store :=
  s.update u (·.unbind x)

theorem mirrors_unbind (s : Store) (u : ScopeId) :
    s.Mirrors id (fun _ => True) (· ≠ x) (s.unbind u x) :=
  mirrors_of_eq (fun _ _ _ _ => trivial)
    (fun id _ => parent?_update (f := Scope.unbind x) (fun _ => rfl) id)
    (fun id _ _ hy => local?_update_of_find? (fun scope => scope.find?_unbind hy) id)

/-- A declaration can be undone by taking the name away. -/
theorem unbind_of_declare {s s' : Store} {u : ScopeId} {v : Value} {constant : Bool}
    (hu : u < s.nextId) (h : s.declare u x v constant = .ok s') : s'.unbind u x = s := by
  obtain ⟨hfree, -⟩ := declare_eq_ok hu h
  rw [eq_update_of_declare h]
  apply ext_scope?
  intro id
  rw [unbind, scope?_update, scope?_update]
  by_cases hid : u = id
  · subst hid
    rw [if_pos rfl, if_pos rfl]
    cases hscope : s.scope? u with
    | none => rfl
    | some scope =>
      rw [local?, hscope, Option.bind_some] at hfree
      exact congrArg some (Scope.unbind_add hfree _)
  · rw [if_neg hid, if_neg hid]

/-! ## The binding of a name that is not used -/

/-- A scope binds a name in the given way, and the functions that are bound to other names do without
it. -/
structure Spares (u : ScopeId) (x : String) (b : Binding) (s : Store) : Prop where
  made : u < s.nextId
  bound : s.local? u x = some b
  unused : ∀ id y c, y ≠ x → s.local? id y = some c → c.value.Avoids x

variable {u : ScopeId} {b : Binding}

theorem spares_of_declare {s s' : Store} {v : Value} {constant : Bool}
    (h : ∀ id y f constant, s.local? id y = some ⟨.function f, constant⟩ → x ∉ f.names)
    (hu : u < s.nextId) (hdeclare : s.declare u x v constant = .ok s') :
    s'.Spares u x ⟨v, constant⟩ := by
  obtain ⟨-, hnext, -, hlocals⟩ := declare_eq_ok hu hdeclare
  refine ⟨by rw [hnext]; exact hu, by rw [hlocals, if_pos ⟨rfl, rfl⟩], fun id y c hy hc => ?_⟩
  rw [hlocals, if_neg fun hown => hy hown.2] at hc
  obtain ⟨w, constant'⟩ := c
  cases w with
  | function f => exact Function.avoids (h id y f constant' hc)
  | _ => trivial

/-- The evaluator leaves the binding of a name that is not used alone. -/
def spareName (u : ScopeId) (x : String) (b : Binding) : Invariant (.avoiding x) where
  naming := Region.otherNames x
  World := Unit
  Later _ _ := True
  store _ s := s.Spares u x b
  value _ v := v.Avoids x
  scope _ _ := True
  later_refl _ := trivial
  later_trans _ _ := trivial
  value_later _ hv := hv
  scope_later _ _ := trivial
  plain := .of_below
  function := (and_iff_right trivial).symm
  found hs _ hy hc := by
    obtain ⟨owner, -, hlocal⟩ := local?_of_find? hc
    exact hs.unused owner _ _ hy hlocal
  push {_ s parent} hs _ := by
    refine ⟨(), trivial, ⟨?_, ?_, fun id y c hy hc => ?_⟩, trivial⟩
    · rw [nextId_push]
      exact Nat.lt_succ_of_lt hs.made
    · rw [local?_push]
      exact hs.bound
    · rw [local?_push] at hc
      exact hs.unused id y c hy hc
  declare {_ s s' id y v constant} hs _ hy hv hdeclare := by
    have hupdate := eq_update_of_declare hdeclare
    refine ⟨(), trivial, ⟨?_, ?_, fun id' z c hz hc => ?_⟩⟩
    · rw [hupdate, nextId_update]
      exact hs.made
    · rw [hupdate, local?_update_of_find? fun scope => ?_]
      · exact hs.bound
      · rw [Scope.find?_add, if_neg (Ne.symm hy)]
    · rcases local?_of_declare hdeclare hc with hold | rfl
      · exact hs.unused id' z c hz hold
      · exact hv
  assign {_ s s' id y v} hs _ hy hv hassign := by
    obtain ⟨hnext, -, owner, old, -, -, hlocals⟩ := assign_eq_ok hassign
    refine ⟨(), trivial, ⟨?_, ?_, fun id' z c hz hc => ?_⟩⟩
    · rw [hnext]
      exact hs.made
    · rw [hlocals, if_neg fun hown => hy hown.2.symm]
      exact hs.bound
    · rcases local?_of_assign hassign hc with hold | rfl
      · exact hs.unused id' z c hz hold
      · exact hv

end Store

/-- Taking the binding away changes nothing else. -/
def Transport.unbinding (u : ScopeId) (x : String) (b : Binding) :
    Transport (Store.spareName u x b) :=
  .ofScopes id (Store.unbind u x) id (fun {_ s} _ => s.mirrors_unbind u)
    (fun _ => Store.nextId_update _ _ _)
    (fun {_ _ _} (hs : Store.Spares u x b _) => Store.update_push _ hs.made _)
    (fun {_ _ _ _} c _ _ (hy : _ ≠ x) => by
      rw [c.relocate_id]
      exact Store.update_update_comm fun _ scope => scope.add_unbind hy c)
    (fun {_ _ _ y} v _ _ _ => by
      rw [v.relocate_id]
      exact Store.update_update_comm fun _ scope => scope.setValue_unbind y v)
    Sink.print_id

/-- The machine with a name taken away from a scope. -/
def Machine.unbind (u : ScopeId) (x : String) (m : Machine) : Machine :=
  { m with store := m.store.unbind u x }

/-- A name that occurs neither in a program nor in a function of the store disturbs nothing. If it
is declared beforehand in a scope that does not bind it, the program ends with the same value or
error, the same output and the same scopes, except for the binding, which is left as it was. The host
is the standard one, whose functions look up no names; another host could look up this one. -/
theorem eval_fresh_name {limit fuel : Nat} {scope u : ScopeId} {p : Program} {m : Machine}
    {x : String} {v : Value} {constant : Bool} {s : Store} (hp : x ∉ p.names)
    (hstore : ∀ id y f constant, m.store.local? id y = some ⟨.function f, constant⟩ → x ∉ f.names)
    (hu : u < m.store.nextId) (hdeclare : m.store.declare u x v constant = .ok s) :
    p.eval limit fuel scope m =
        (p.eval limit fuel scope { m with store := s }).mapMachine (·.unbind u x) ∧
      ∀ m', (p.eval limit fuel scope { m with store := s }).EndsIn m' →
        m'.store.local? u x = some ⟨v, constant⟩ := by
  let b : Binding := ⟨v, constant⟩
  have hspares := Store.spares_of_declare hstore hu hdeclare
  have hbody : ∀ s ∈ p, x ∉ s.names := Stmt.notMem_namesAll hp
  have hcarries : Eval.Carries (.unbinding u x b) () (Value.relocate id)
      (p.eval limit fuel scope) (Program.eval limit fuel scope (p.relocate id)) :=
    (Eval.carriesWith (.unbinding u x b) limit fuel).block trivial hbody
  have hkeeps := p.keeps (Store.spareName u x b) () hbody limit fuel scope trivial
  have hunbind : ({ m with store := s } : Machine).unbind u x = m := by
    rw [Machine.unbind, Store.unbind_of_declare hu hdeclare]
  rw [Program.relocate_id] at hcarries
  refine ⟨?_, fun m' hends => ?_⟩
  · calc p.eval limit fuel scope m
        = p.eval limit fuel scope (({ m with store := s } : Machine).unbind u x) := by rw [hunbind]
      _ = (Transport.unbinding u x b).outcome (Value.relocate id)
            (p.eval limit fuel scope { m with store := s }) := hcarries _ hspares
      _ = _ := Transport.outcome_eq_mapMachine rfl _
  · obtain ⟨_, -, hend⟩ := hkeeps.store_of_endsIn (m := { m with store := s }) hspares hends
    exact hend.bound

/-- A function that changes a variable of the scope it was declared in. -/
def toggle : Function :=
  ⟨"toggle", [], [.expr (.assign (.identifier "on" .nowhere)
    (.not (.identifier "on" .nowhere) .nowhere) .nowhere)], 0⟩

/-- A scope that binds the function and its variable, and a scope inside. -/
def toggleMachine : Machine :=
  { Machine.bare .none with
    store := ⟨#[⟨[("toggle", ⟨.function toggle, true⟩), ("on", ⟨.bool true, false⟩)], none⟩,
      ⟨[], some 0⟩]⟩ }

/-- Calls the function and then declares a variable of the same name as the one it changes. -/
def toggling : Program :=
  [.expr (.call (.identifier "toggle" .nowhere) [] .nowhere),
    .declare "on" (some (.identifier "on" .nowhere)) false .nowhere]

/-- A name that is not used may be bound in the scope that the function and its variable are in. -/
theorem toggling_fresh_name :
    "off" ∉ toggling.names ∧ ∃ s, toggleMachine.store.declare 0 "off" .nil true = .ok s ∧
      toggling.eval 1 9 1 toggleMachine =
        (toggling.eval 1 9 1 { toggleMachine with store := s }).mapMachine (·.unbind 0 "off") ∧
      ∀ m', (toggling.eval 1 9 1 { toggleMachine with store := s }).EndsIn m' →
        m'.store.local? 0 "off" = some ⟨.nil, true⟩ := by
  have hunused : "off" ∉ toggling.names := by decide
  have hstore : ∀ id y f constant,
      toggleMachine.store.local? id y = some ⟨.function f, constant⟩ → "off" ∉ f.names := by
    intro id y f constant hlocal
    have hfind : [("toggle", (⟨.function toggle, true⟩ : Binding)),
        ("on", ⟨.bool true, false⟩)].lookup y = some ⟨.function f, constant⟩ := by
      rcases id with _ | _ | id
      · exact hlocal
      · cases hlocal
      · cases hlocal
    rw [Scope.lookup_cons_ite, Scope.lookup_cons_ite] at hfind
    split at hfind
    · cases hfind
      decide
    · split at hfind <;> cases hfind
  exact ⟨hunused, _, rfl, eval_fresh_name hunused hstore (by decide) rfl⟩

end Scriptlet
