import Scriptlet.Eval.Machine
import Scriptlet.Proofs.Store

/-! # What an assignment and a declaration change

Scopes share the scopes around them, so one change of a store is seen from many scopes. A scope
*sees* another one for a name if the way outwards leads there and no scope before it binds the name.
An assignment changes what the name means from the scopes that have the scope assigned to as their
nearest one with the name. A declaration changes it from the scopes that see the scope declared in.
What all other names mean, and the name from all other scopes, stays as it was (`binding_effects`).
-/

namespace Scriptlet

namespace Store

/-! ## The scopes that a scope sees -/

/-- The way outwards from a scope leads to the target, and no scope before the target binds the
name. -/
inductive Sees (s : Store) (x : String) : ScopeId → ScopeId → Prop
  | here {id : ScopeId} : Sees s x id id
  | outward {id p target : ScopeId} : s.binds id x = false → s.parent? id = some p →
      Sees s x p target → Sees s x id target

/-- The nearest scope that binds a name: the first one on the way outwards. -/
def Nearest (s : Store) (x : String) (id owner : ScopeId) : Prop :=
  s.Sees x id owner ∧ s.binds owner x = true

section Search

variable {s s' : Store} {x : String} {id p owner : ScopeId}

theorem ParentsFirst.resolve?_outward (hs : s.ParentsFirst) (hbinds : s.binds id x = false)
    (hp : s.parent? id = some p) : s.resolve? x id = s.resolve? x p := by
  rw [hs.resolve?_eq, hbinds, hp]
  rfl

/-- A scope that has come to bind a name is found from where it is seen. -/
theorem Sees.resolve?_of_binds (hs : s'.ParentsFirst)
    (hparents : ∀ id, s'.parent? id = s.parent? id)
    (hbinds : ∀ id, id ≠ owner → s'.binds id x = s.binds id x) (howner : s'.binds owner x = true)
    (h : s.Sees x id owner) : s'.resolve? x id = some owner := by
  induction h with
  | here => exact Store.resolve?_of_binds howner
  | @outward id p owner hfree hp _ ih =>
    by_cases hid : id = owner
    · subst hid
      exact Store.resolve?_of_binds howner
    · have hfree' : s'.binds id x = false := by
        rw [hbinds id hid, hfree]
      have hp' : s'.parent? id = some p := by
        rw [hparents, hp]
      rw [hs.resolve?_outward hfree' hp']
      exact ih hbinds howner

/-- From where a scope is not seen, it does not matter whether it binds the name. -/
theorem ParentsFirst.resolve?_of_not_sees (hs : s.ParentsFirst) (hs' : s'.ParentsFirst)
    (hparents : ∀ id, s'.parent? id = s.parent? id)
    (hbinds : ∀ id, id ≠ owner → s'.binds id x = s.binds id x) (h : ¬ s.Sees x id owner) :
    s'.resolve? x id = s.resolve? x id := by
  induction id using Nat.strongRecOn with
  | ind id ih =>
    have hid : id ≠ owner := by
      rintro rfl
      exact h .here
    rw [hs'.resolve?_eq, hs.resolve?_eq, hbinds id hid, hparents]
    cases hfree : s.binds id x with
    | true => rfl
    | false =>
      cases hp : s.parent? id with
      | none => rfl
      | some p => exact ih p (hs id p hp) fun hsees => h (.outward hfree hp hsees)

theorem ParentsFirst.sees_of_resolve? (hs : s.ParentsFirst) (h : s.resolve? x id = some owner) :
    s.Sees x id owner := by
  induction id using Nat.strongRecOn with
  | ind id ih =>
    cases hbinds : s.binds id x with
    | true =>
      rw [resolve?_of_binds hbinds] at h
      cases h
      exact .here
    | false =>
      rw [hs.resolve?_eq, hbinds] at h
      obtain ⟨p, hp, howner⟩ := Option.bind_eq_some_iff.mp h
      exact .outward hbinds hp (ih p (hs id p hp) howner)

/-- The search for a name finds the nearest scope that binds it. -/
theorem ParentsFirst.resolve?_eq_some_iff (hs : s.ParentsFirst) :
    s.resolve? x id = some owner ↔ s.Nearest x id owner :=
  ⟨fun h => ⟨hs.sees_of_resolve? h, binds_of_resolve? h⟩,
    fun h => h.1.resolve?_of_binds hs (fun _ => rfl) (fun _ _ => rfl) h.2⟩

theorem Nearest.unique (hs : s.ParentsFirst) {owner' : ScopeId} (h : s.Nearest x id owner)
    (h' : s.Nearest x id owner') : owner = owner' := by
  rw [← hs.resolve?_eq_some_iff] at h h'
  rw [h, Option.some.injEq] at h'
  exact h'

/-- A name means the same if the search ends in the same scope, which binds it as before. -/
theorem lookup_congr (hresolve : s'.resolve? x id = s.resolve? x id)
    (hlocal : ∀ owner, s.resolve? x id = some owner → s'.local? owner x = s.local? owner x) :
    s'.lookup id x = s.lookup id x := by
  have hfind : s'.find? id x = s.find? id x := by
    rw [find?, find?, hresolve]
    cases howner : s.resolve? x id with
    | none => rfl
    | some owner => exact hlocal owner howner
  rw [lookup, lookup, hfind]

theorem lookup_of_resolve? {b : Binding} (hresolve : s.resolve? x id = some owner)
    (hlocal : s.local? owner x = some b) : s.lookup id x = .ok b.value := by
  have hfind : s.find? id x = some b := by
    rw [find?, hresolve]
    exact hlocal
  rw [lookup, hfind]

end Search

/-! ## What a name means afterwards -/

/-- After a change, a name has the value from the scopes that satisfy a condition. From the others,
and for all other names, a search finds what it found before. Scopes keep their parents. -/
structure Rebound (s s' : Store) (x : String) (v : Value) (P : ScopeId → Prop) : Prop where
  changed : ∀ id, P id → s'.lookup id x = .ok v
  kept : ∀ id y, (y = x → ¬ P id) → s'.lookup id y = s.lookup id y
  parents : ∀ id, s'.parent? id = s.parent? id

section Changes

variable {s : Store} {id owner : ScopeId} {x : String}

/-- If scopes bind the same names and have the same parents, every search ends where it did. -/
theorem resolve?_eq_of_binds {s' : Store} (hbinds : ∀ id, s'.binds id x = s.binds id x)
    (hparents : ∀ id, s'.parent? id = s.parent? id) (id : ScopeId) :
    s'.resolve? x id = s.resolve? x id :=
  resolve?_congr (P := fun _ => True) (fun _ _ _ _ => trivial) (fun id _ => hbinds id)
    (fun id _ => hparents id) trivial

/-- Another value for a bound name changes neither which names are bound nor which are constants. -/
theorem constant_setValue {b : Binding} (hb : s.local? owner x = some b) (v : Value) (id : ScopeId)
    (y : String) :
    ((s.update owner (·.setValue x v)).local? id y).map (·.constant) =
      (s.local? id y).map (·.constant) := by
  rw [local?_setValue hb]
  by_cases hassigned : id = owner ∧ y = x
  · obtain ⟨rfl, rfl⟩ := hassigned
    rw [if_pos ⟨rfl, rfl⟩, hb]
    rfl
  · rw [if_neg hassigned]

theorem binds_setValue {b : Binding} (hb : s.local? owner x = some b) (v : Value) (id : ScopeId)
    (y : String) : (s.update owner (·.setValue x v)).binds id y = s.binds id y := by
  have hflags := congrArg Option.isSome (constant_setValue hb v id y)
  rw [Option.isSome_map, Option.isSome_map] at hflags
  exact hflags

theorem isConstant_setValue {b : Binding} (hb : s.local? owner x = some b) (v : Value)
    (id : ScopeId) (y : String) :
    (s.update owner (·.setValue x v)).isConstant id y = s.isConstant id y := by
  have hflags := congrArg (Option.any fun flag => flag) (constant_setValue hb v id y)
  rw [Option.any_map, Option.any_map] at hflags
  exact hflags

/-- An assignment is seen from where the name is bound by the scope that is assigned to. -/
theorem rebound_setValue (hs : s.ParentsFirst) (howner : s.binds owner x = true) (v : Value) :
    s.Rebound (s.update owner (·.setValue x v)) x v (s.Nearest x · owner) := by
  obtain ⟨b, hb⟩ := Option.isSome_iff_exists.mp howner
  have hlocals := local?_setValue hb v
  have hparents : ∀ id, (s.update owner (·.setValue x v)).parent? id = s.parent? id :=
    parent?_update fun _ => rfl
  have hresolve (y : String) := resolve?_eq_of_binds (binds_setValue hb v · y) hparents
  refine ⟨fun id hid => ?_, fun id y hy => ?_, hparents⟩
  · have hbound : (s.update owner (·.setValue x v)).local? owner x =
        some { b with value := v } := by
      rw [hlocals, if_pos ⟨rfl, rfl⟩]
    refine lookup_of_resolve? ?_ hbound
    rw [hresolve]
    exact hs.resolve?_eq_some_iff.mpr hid
  · refine lookup_congr (hresolve y id) fun o ho => ?_
    rw [hlocals, if_neg ?_]
    -- a search that ends in the scope assigned to is not for the name
    rintro ⟨rfl, rfl⟩
    exact hy rfl (hs.resolve?_eq_some_iff.mp ho)

/-- A declaration is seen from where the way outwards leads to the scope of the declaration before
any scope that binds the name. -/
theorem rebound_declare {s' : Store} {v : Value} {constant : Bool} (hs : s.ParentsFirst)
    (hid : id < s.nextId) (h : s.declare id x v constant = .ok s') :
    s.Rebound s' x v (s.Sees x · id) := by
  obtain ⟨hfree, -, hparents, hlocals⟩ := declare_eq_ok hid h
  have hs' : s'.ParentsFirst := by
    intro i p hp
    rw [hparents] at hp
    exact hs i p hp
  have hbound : s'.local? id x = some ⟨v, constant⟩ := by
    rw [hlocals, if_pos ⟨rfl, rfl⟩]
  have hbinds : s'.binds id x = true := by
    rw [binds, hbound]
    rfl
  have hother {i : ScopeId} {y : String} (hne : ¬ (i = id ∧ y = x)) :
      s'.binds i y = s.binds i y := by
    rw [binds, binds, hlocals, if_neg hne]
  refine ⟨fun i hi => ?_, fun i y hy => ?_, hparents⟩
  · refine lookup_of_resolve? ?_ hbound
    exact hi.resolve?_of_binds hs' hparents (fun _ hne => hother fun hc => hne hc.1) hbinds
  · have hresolve : s'.resolve? y i = s.resolve? y i := by
      by_cases hyx : y = x
      · subst hyx
        exact hs.resolve?_of_not_sees hs' hparents (fun _ hne => hother fun hc => hne hc.1) (hy rfl)
      · exact resolve?_eq_of_binds (fun _ => hother fun hc => hyx hc.2) hparents i
    refine lookup_congr hresolve fun o ho => ?_
    rw [hlocals, if_neg ?_]
    -- the scope did not bind the name, so no search ended there
    rintro ⟨rfl, rfl⟩
    have howner := binds_of_resolve? ho
    rw [binds, hfree] at howner
    cases howner

theorem isConstant_declare {s' : Store} {v : Value} {constant : Bool} (hid : id < s.nextId)
    (h : s.declare id x v constant = .ok s') (i : ScopeId) (y : String) :
    s'.isConstant i y = if i = id ∧ y = x then constant else s.isConstant i y := by
  obtain ⟨-, -, -, hlocals⟩ := declare_eq_ok hid h
  rw [isConstant, hlocals]
  by_cases hdeclared : i = id ∧ y = x
  · rw [if_pos hdeclared, if_pos hdeclared]
    rfl
  · rw [if_neg hdeclared, if_neg hdeclared, isConstant]

end Changes

end Store

/-! ## Success and failure -/

namespace Eval

/-- An operation on a store succeeds exactly under a condition. It then gives the value, and changes
the store as described and nothing else. Otherwise it fails at the position and changes nothing. -/
structure Guarded (x : Eval Value) (m : Machine) (v : Value) (pos : Position) (allowed : Prop)
    (effect : Store → Prop) : Prop where
  done_iff : (∃ u m', x m = .done u m') ↔ allowed
  changed : ∀ u m', x m = .done u m' → u = v ∧ m' = { m with store := m'.store } ∧ effect m'.store
  unchanged : ¬ allowed → ∃ cause, x m = .failed ⟨cause, pos⟩ m

variable {x : Eval Value} {m : Machine} {v : Value} {pos : Position} {allowed : Prop}
  {effect : Store → Prop}

/-- An operation on a machine that takes over the result of one on its store. -/
theorem guarded_of_result {r : Except RuntimeError.Cause Store}
    (hok : ∀ s, r = .ok s → x m = .done v { m with store := s })
    (herror : ∀ cause, r = .error cause → x m = .failed ⟨cause, pos⟩ m)
    (hallowed : (∃ s, r = .ok s) ↔ allowed) (heffect : ∀ s, r = .ok s → effect s) :
    Guarded x m v pos allowed effect := by
  cases hresult : r with
  | ok s =>
    have hdone := hok s hresult
    have hcondition : allowed := hallowed.mp ⟨s, hresult⟩
    refine ⟨⟨fun _ => hcondition, fun _ => ⟨v, _, hdone⟩⟩, ?_, fun h => absurd hcondition h⟩
    intro u m' hm'
    rw [hdone] at hm'
    cases hm'
    exact ⟨rfl, rfl, heffect s hresult⟩
  | error cause =>
    have hfailed := herror cause hresult
    have hcondition : ¬ allowed := by
      intro h
      obtain ⟨s, hs⟩ := hallowed.mpr h
      rw [hresult] at hs
      cases hs
    have hnever : ∀ u m', x m ≠ .done u m' := by
      intro u m' hm'
      rw [hfailed] at hm'
      cases hm'
    exact ⟨⟨fun ⟨u, m', h⟩ => absurd h (hnever u m'), fun h => absurd h hcondition⟩,
      fun u m' h => absurd h (hnever u m'), fun _ => ⟨cause, hfailed⟩⟩

/-- An assignment succeeds if the nearest scope that binds the name does so as a variable. It is
seen from all scopes for which this is the nearest one. A declaration succeeds if the scope itself
does not bind the name. It is seen from all scopes that see this one. Everything else stays as it
was, and an operation that fails changes nothing. -/
theorem binding_effects {m : Machine} {id : ScopeId} (hm : m.store.ParentsFirst)
    (hid : id < m.store.nextId) (x : String) (v : Value) (pos : Position) :
    Guarded (assign id x v pos) m v pos
        (∃ owner, m.store.Nearest x id owner ∧ m.store.isConstant owner x = false)
        (fun s => ∃ owner, m.store.Nearest x id owner ∧
          m.store.Rebound s x v (m.store.Nearest x · owner) ∧
          ∀ i y, s.isConstant i y = m.store.isConstant i y) ∧
      ∀ constant, Guarded (declare id x v constant pos) m v pos (m.store.binds id x = false)
        (fun s => m.store.Rebound s x v (m.store.Sees x · id) ∧
          ∀ i y, s.isConstant i y =
            if i = id ∧ y = x then constant else m.store.isConstant i y) := by
  refine ⟨?_, fun constant => ?_⟩
  · apply guarded_of_result (r := m.store.assign id x v)
    · intro s hs
      rw [assign, hs]
    · intro cause hcause
      rw [assign, hcause]
    · simp only [Store.assign_eq_ok_iff, hm.resolve?_eq_some_iff]
      exact ⟨fun ⟨_, owner, howner, hvariable, _⟩ => ⟨owner, howner, hvariable⟩,
        fun ⟨owner, howner, hvariable⟩ => ⟨_, owner, howner, hvariable, rfl⟩⟩
    · intro s hs
      obtain ⟨owner, howner, -, rfl⟩ := Store.assign_eq_ok_iff.mp hs
      have hnearest := hm.resolve?_eq_some_iff.mp howner
      obtain ⟨b, hb⟩ := Option.isSome_iff_exists.mp hnearest.2
      exact ⟨owner, hnearest, Store.rebound_setValue hm hnearest.2 v,
        Store.isConstant_setValue hb v⟩
  · apply guarded_of_result (r := m.store.declare id x v constant)
    · intro s hs
      rw [declare, hs]
    · intro cause hcause
      rw [declare, hcause]
    · simp only [Store.declare_eq_ok_iff]
      exact ⟨fun ⟨_, hfree, _⟩ => hfree, fun hfree => ⟨_, hfree, rfl⟩⟩
    · intro s hs
      exact ⟨Store.rebound_declare hm hid hs, Store.isConstant_declare hid hs⟩

/-- A scope with a variable and two branches below it, the second of which hides the variable. -/
def branchMachine : Machine where
  store := ⟨#[⟨[("x", ⟨.nil, false⟩)], none⟩, ⟨[], some 0⟩, ⟨[("x", ⟨.nil, true⟩)], some 0⟩,
    ⟨[], some 1⟩, ⟨[], some 2⟩]⟩
  sink := .fresh .none
  depth := 0
  deepest := 0

/-- An assignment from the first branch is seen in it but not in the second one, where there is a
constant instead. A declaration in the first branch is seen below it but not above. -/
theorem branchMachine_effects :
    branchMachine.store.ParentsFirst ∧
      (∃ m', assign 3 "x" (.bool true) .nowhere branchMachine = .done (.bool true) m' ∧
        m'.store.lookup 1 "x" = .ok (.bool true) ∧
        m'.store.lookup 4 "x" = branchMachine.store.lookup 4 "x") ∧
      (∃ m', declare 1 "x" (.bool true) true .nowhere branchMachine = .done (.bool true) m' ∧
        m'.store.lookup 3 "x" = .ok (.bool true) ∧
        m'.store.lookup 0 "x" = branchMachine.store.lookup 0 "x") ∧
      ∃ cause, assign 4 "x" (.bool true) .nowhere branchMachine =
        .failed ⟨cause, .nowhere⟩ branchMachine := by
  have hparents : branchMachine.store.ParentsFirst := by
    intro id p hp
    rcases id with _ | _ | _ | _ | _ | id <;> cases hp <;> decide
  have hfirst : branchMachine.store.Nearest "x" 1 0 := ⟨.outward rfl rfl .here, rfl⟩
  have hsecond : branchMachine.store.Nearest "x" 4 2 := ⟨.outward rfl rfl .here, rfl⟩
  have hbelow : branchMachine.store.Nearest "x" 3 0 := ⟨.outward rfl rfl hfirst.1, rfl⟩
  have heffects (id : ScopeId) (hid : id < branchMachine.store.nextId) :=
    binding_effects hparents hid "x" (.bool true) .nowhere
  refine ⟨hparents, ?_, ?_, ?_⟩
  · obtain ⟨hassign, -⟩ := heffects 3 (by decide)
    obtain ⟨u, m', hdone⟩ := hassign.done_iff.mpr ⟨0, hbelow, rfl⟩
    obtain ⟨rfl, -, owner, howner, hrebound, -⟩ := hassign.changed u m' hdone
    obtain rfl := howner.unique hparents hbelow
    refine ⟨m', hdone, hrebound.changed 1 hfirst, hrebound.kept 4 "x" fun _ hfour => ?_⟩
    cases hfour.unique hparents hsecond
  · obtain ⟨-, hdeclare⟩ := heffects 1 (by decide)
    obtain ⟨u, m', hdone⟩ := (hdeclare true).done_iff.mpr rfl
    obtain ⟨rfl, -, hrebound, -⟩ := (hdeclare true).changed u m' hdone
    refine ⟨m', hdone, hrebound.changed 3 (.outward rfl rfl .here), ?_⟩
    refine hrebound.kept 0 "x" fun _ hzero => ?_
    -- the outermost scope has no way outwards
    cases hzero with
    | outward _ hp _ => cases hp
  · obtain ⟨hassign, -⟩ := heffects 4 (by decide)
    refine hassign.unchanged ?_
    rintro ⟨owner, howner, hvariable⟩
    obtain rfl := howner.unique hparents hsecond
    cases hvariable

end Eval

end Scriptlet
