import Scriptlet.Store
import Mathlib.Logic.Relation

/-! # How a store changes

A store changes by *edits*: a scope is made, a name is declared, or a name is assigned to. Each
edit names scopes that exist and binds values whose scopes exist. What holds of every sequence of
edits is proved from what one edit does: well-formedness is kept, and what a store says about its
scopes stays true later, except for the values of variables.
-/

namespace Scriptlet

/-- The scope that a value refers to, if any, is one of the first `n`. -/
def Value.Below (n : Nat) : Value → Prop
  | .function f => f.closure < n
  | _ => True

theorem Value.Below.mono {n n' : Nat} {v : Value} (h : v.Below n) (hle : n ≤ n') : v.Below n' := by
  cases v with
  | function f => exact Nat.lt_of_lt_of_le h hle
  | _ => trivial

namespace Scope

theorem lookup_cons_ite (y z : String) (b : Binding) (entries : List (String × Binding)) :
    ((z, b) :: entries).lookup y = if y = z then some b else entries.lookup y := by
  rw [List.lookup_cons]
  by_cases h : y = z
  · rw [if_pos h, beq_iff_eq.mpr h]
  · rw [if_neg h, beq_eq_false_iff_ne.mpr h]

theorem find?_add (s : Scope) (x y : String) (b : Binding) :
    (s.add x b).find? y = if y = x then some b else s.find? y :=
  lookup_cons_ite y x b s.bindings

/-- A bound name gets the value and keeps its constancy; a name that is not bound stays so. -/
theorem find?_setValue (s : Scope) (x y : String) (v : Value) :
    (s.setValue x v).find? y =
      if y = x then (s.find? y).map fun b => { b with value := v } else s.find? y := by
  obtain ⟨entries, parent⟩ := s
  simp only [find?, setValue]
  induction entries with
  | nil => simp
  | cons entry entries ih =>
    obtain ⟨z, b⟩ := entry
    simp only [List.map_cons, beq_iff_eq] at ih ⊢
    by_cases hz : z = x
    · subst hz
      rw [if_pos rfl, lookup_cons_ite, lookup_cons_ite, ih]
      by_cases hy : y = z <;> simp [hy]
    · rw [if_neg hz, lookup_cons_ite, lookup_cons_ite, ih]
      by_cases hy : y = z <;> simp [hy, hz]

end Scope

namespace Store

/-! ## What each operation changes -/

/-- A new scope has no names, and the others stay as they are. -/
theorem scope?_push (s : Store) (parent : Option ScopeId) (id : ScopeId) :
    (s.push parent).scope? id = if id = s.nextId then some ⟨[], parent⟩ else s.scope? id :=
  Array.getElem?_push

theorem scope?_update (s : Store) (i id : ScopeId) (f : Scope → Scope) :
    (s.update i f).scope? id = if i = id then (s.scope? id).map f else s.scope? id :=
  Array.getElem?_modify

@[simp] theorem nextId_push (s : Store) (parent : Option ScopeId) :
    (s.push parent).nextId = s.nextId + 1 :=
  Array.size_push _

@[simp] theorem nextId_update (s : Store) (i : ScopeId) (f : Scope → Scope) :
    (s.update i f).nextId = s.nextId :=
  Array.size_modify

theorem scope?_isSome_iff {s : Store} {id : ScopeId} : (s.scope? id).isSome ↔ id < s.nextId := by
  simp [scope?, nextId]

theorem scope?_nextId (s : Store) : s.scope? s.nextId = none := by
  simp [scope?, nextId]

/-- Stores are equal if they have the same scopes. -/
theorem ext_scope? {s s' : Store} (h : ∀ id, s.scope? id = s'.scope? id) : s = s' := by
  obtain ⟨scopes⟩ := s
  obtain ⟨scopes'⟩ := s'
  exact congrArg Store.mk (Array.ext_getElem? h)

/-- Parents of older scopes stay as they are. -/
theorem parent?_push (s : Store) (parent : Option ScopeId) (id : ScopeId) :
    (s.push parent).parent? id = if id = s.nextId then parent else s.parent? id := by
  rw [parent?, scope?_push]
  by_cases h : id = s.nextId
  · rw [if_pos h, if_pos h]
    rfl
  · rw [if_neg h, if_neg h]
    rfl

/-- No name is bound by making a scope. -/
theorem local?_push (s : Store) (parent : Option ScopeId) (id : ScopeId) (x : String) :
    (s.push parent).local? id x = s.local? id x := by
  rw [local?, local?, scope?_push]
  by_cases h : id = s.nextId
  · rw [if_pos h, h, scope?_nextId]
    rfl
  · rw [if_neg h]

/-- Parents stay as they are if the change of a scope keeps its parent. -/
theorem parent?_update {s : Store} {i : ScopeId} {f : Scope → Scope}
    (hf : ∀ scope, (f scope).parent = scope.parent) (id : ScopeId) :
    (s.update i f).parent? id = s.parent? id := by
  rw [parent?, parent?, scope?_update]
  by_cases h : i = id
  · rw [if_pos h]
    cases s.scope? id with
    | none => rfl
    | some scope => exact hf scope
  · rw [if_neg h]

/-- Other scopes keep their bindings. -/
theorem local?_update_of_ne {s : Store} {i id : ScopeId} (f : Scope → Scope) (x : String)
    (h : i ≠ id) : (s.update i f).local? id x = s.local? id x := by
  rw [local?, local?, scope?_update, if_neg h]

theorem local?_update_of_find? {s : Store} {i : ScopeId} {f : Scope → Scope} {x : String}
    (hf : ∀ scope, (f scope).find? x = scope.find? x) (id : ScopeId) :
    (s.update i f).local? id x = s.local? id x := by
  by_cases h : i = id
  · rw [local?, local?, scope?_update, if_pos h]
    cases s.scope? id with
    | none => rfl
    | some scope => exact hf scope
  · exact local?_update_of_ne f x h

/-- Making a scope and changing another one may be done in either order. -/
theorem update_push {s : Store} {i : ScopeId} (f : Scope → Scope) (hi : i < s.nextId)
    (parent : Option ScopeId) : (s.update i f).push parent = (s.push parent).update i f := by
  apply ext_scope?
  intro id
  rw [scope?_push, scope?_update, scope?_update, scope?_push, nextId_update]
  by_cases hnew : id = s.nextId
  · have hne : i ≠ id := by
      rw [hnew]
      exact Nat.ne_of_lt hi
    rw [if_pos hnew, if_pos hnew, if_neg hne]
  · rw [if_neg hnew, if_neg hnew]

/-- A scope that is not there cannot be changed. -/
theorem update_of_le {s : Store} {i : ScopeId} (hi : s.nextId ≤ i) (f : Scope → Scope) :
    s.update i f = s := by
  apply ext_scope?
  intro id
  rw [scope?_update]
  by_cases h : i = id
  · have hnone : s.scope? id = none := by
      rw [← Option.not_isSome_iff_eq_none, scope?_isSome_iff, ← h]
      exact Nat.not_lt_of_le hi
    rw [if_pos h, hnone, Option.map_none]
  · rw [if_neg h]

theorem update_id (s : Store) (i : ScopeId) : s.update i id = s := by
  apply ext_scope?
  intro j
  rw [scope?_update, Option.map_id_fun, id, ite_self]

theorem update_update (s : Store) (i : ScopeId) (f g : Scope → Scope) :
    (s.update i f).update i g = s.update i (g ∘ f) := by
  apply ext_scope?
  intro id
  rw [scope?_update, scope?_update, scope?_update]
  by_cases h : i = id
  · rw [if_pos h, if_pos h, if_pos h, Option.map_map]
  · rw [if_neg h, if_neg h, if_neg h]

/-- Two changes may be done in either order if they are of different scopes or go together. -/
theorem update_update_comm {s : Store} {i j : ScopeId} {f g : Scope → Scope}
    (h : i = j → ∀ scope, g (f scope) = f (g scope)) :
    (s.update i f).update j g = (s.update j g).update i f := by
  apply ext_scope?
  intro id
  rw [scope?_update, scope?_update, scope?_update, scope?_update]
  by_cases hi : i = id <;> by_cases hj : j = id
  · rw [if_pos hi, if_pos hj, if_pos hj, if_pos hi, Option.map_map, Option.map_map]
    have hcomm : g ∘ f = f ∘ g := funext (h (hi.trans hj.symm))
    rw [hcomm]
  · rw [if_pos hi, if_neg hj, if_neg hj, if_pos hi]
  · rw [if_neg hi, if_pos hj, if_neg hi]
  · rw [if_neg hi, if_neg hj, if_neg hi]

/-- A declaration succeeds if the scope itself does not bind the name, and changes this scope. -/
theorem declare_eq_ok_iff {s s' : Store} {id : ScopeId} {x : String} {v : Value} {constant : Bool} :
    s.declare id x v constant = .ok s' ↔
      s.binds id x = false ∧ s' = s.update id (·.add x ⟨v, constant⟩) := by
  rw [declare]
  by_cases hbinds : s.binds id x = true
  · rw [if_pos hbinds, hbinds]
    simp
  · rw [if_neg hbinds]
    simp [Bool.eq_false_iff.mpr hbinds, eq_comm]

/-- What a declaration does: the scope did not bind the name, and binds it now. -/
theorem declare_eq_ok {s s' : Store} {id : ScopeId} {x : String} {v : Value} {constant : Bool}
    (hid : id < s.nextId) (h : s.declare id x v constant = .ok s') :
    s.local? id x = none ∧ s'.nextId = s.nextId ∧ (∀ id', s'.parent? id' = s.parent? id') ∧
      ∀ id' y, s'.local? id' y =
        if id' = id ∧ y = x then some ⟨v, constant⟩ else s.local? id' y := by
  obtain ⟨hfree, rfl⟩ := declare_eq_ok_iff.mp h
  refine ⟨by simpa [binds] using hfree, nextId_update _ _ _, parent?_update fun _ => rfl, ?_⟩
  intro id' y
  by_cases hid' : id = id'
  · subst hid'
    obtain ⟨scope, hscope⟩ := Option.isSome_iff_exists.mp (scope?_isSome_iff.mpr hid)
    rw [local?, local?, scope?_update, if_pos rfl, hscope]
    simp [Scope.find?_add]
  · rw [local?_update_of_ne _ _ hid', if_neg fun hc => hid' hc.1.symm]

theorem binds_of_local? {s : Store} {x : String} {id : ScopeId} {b : Binding}
    (h : s.local? id x = some b) : s.binds id x = true := by
  rw [binds, h]
  rfl

/-- The search for a name ends where it is bound. -/
theorem resolve?_of_binds {s : Store} {x : String} {id : ScopeId} (h : s.binds id x = true) :
    s.resolve? x id = some id := by
  rw [resolve?, if_pos h]

/-- The search for a name ends in the scope itself, or goes on in a parent that was made before. -/
theorem resolve?_eq_some {s : Store} {x : String} {id owner : ScopeId}
    (h : s.resolve? x id = some owner) :
    s.binds id x = true ∧ owner = id ∨
      ∃ p, s.parent? id = some p ∧ p < id ∧ s.resolve? x p = some owner := by
  rw [resolve?] at h
  by_cases hbinds : s.binds id x = true
  · rw [if_pos hbinds] at h
    cases h
    exact Or.inl ⟨hbinds, rfl⟩
  · rw [if_neg hbinds] at h
    cases hp : s.parent? id with
    | none =>
      simp only [hp] at h
      cases h
    | some p =>
      simp only [hp] at h
      by_cases hlt : p < id
      · rw [if_pos hlt] at h
        exact Or.inr ⟨p, rfl, hlt, h⟩
      · rw [if_neg hlt] at h
        cases h

/-- The nearest scope that binds a name does bind it. -/
theorem binds_of_resolve? {s : Store} {x : String} {id owner : ScopeId}
    (h : s.resolve? x id = some owner) : s.binds owner x = true := by
  induction id using Nat.strongRecOn with
  | ind id ih =>
    rcases resolve?_eq_some h with ⟨hbinds, rfl⟩ | ⟨p, -, hlt, hp⟩
    · exact hbinds
    · exact ih p hlt hp

/-- The nearest scope that binds a name is one of any scopes that the way outwards stays in. -/
theorem mem_of_resolve? {s : Store} {P : ScopeId → Prop}
    (houtward : ∀ id p, P id → s.parent? id = some p → P p) {x : String} {id owner : ScopeId}
    (hid : P id) (h : s.resolve? x id = some owner) : P owner := by
  induction id using Nat.strongRecOn with
  | ind id ih =>
    rcases resolve?_eq_some h with ⟨-, rfl⟩ | ⟨p, hparent, hlt, hp⟩
    · exact hid
    · exact ih p hlt (houtward id p hid hparent) hp

/-- The search for a name depends on the scopes on the way outwards only. -/
theorem resolve?_congr {s s' : Store} {P : ScopeId → Prop} {x : String}
    (houtward : ∀ id p, P id → s.parent? id = some p → P p)
    (hbinds : ∀ id, P id → s'.binds id x = s.binds id x)
    (hparents : ∀ id, P id → s'.parent? id = s.parent? id) {id : ScopeId} (hid : P id) :
    s'.resolve? x id = s.resolve? x id := by
  induction id using Nat.strongRecOn with
  | ind id ih =>
    rw [resolve?, resolve?, hbinds id hid, hparents id hid]
    cases hp : s.parent? id with
    | none => rfl
    | some p =>
      simp only
      by_cases hlt : p < id
      · rw [if_pos hlt, if_pos hlt, ih p hlt (houtward id p hid hp)]
      · rw [if_neg hlt, if_neg hlt]

/-- What a name leads to is bound in the scope that the search ends in. -/
theorem local?_of_find? {s : Store} {id : ScopeId} {x : String} {b : Binding}
    (h : s.find? id x = some b) :
    ∃ owner, s.resolve? x id = some owner ∧ s.local? owner x = some b :=
  Option.bind_eq_some_iff.mp h

/-- An assignment succeeds if the nearest scope that binds the name does so as a variable, and
changes that scope. -/
theorem assign_eq_ok_iff {s s' : Store} {id : ScopeId} {x : String} {v : Value} :
    s.assign id x v = .ok s' ↔
      ∃ owner, s.resolve? x id = some owner ∧ s.isConstant owner x = false ∧
        s' = s.update owner (·.setValue x v) := by
  rw [assign]
  cases howner : s.resolve? x id with
  | none => simp
  | some owner =>
    simp only [Option.some.injEq, exists_eq_left']
    by_cases hconstant : s.isConstant owner x = true
    · simp [hconstant]
    · simp [Bool.eq_false_iff.mpr hconstant, eq_comm]

/-- Giving a bound name another value changes this binding only. -/
theorem local?_setValue {s : Store} {owner : ScopeId} {x : String} {b : Binding}
    (hb : s.local? owner x = some b) (v : Value) (id : ScopeId) (y : String) :
    (s.update owner (·.setValue x v)).local? id y =
      if id = owner ∧ y = x then some { b with value := v } else s.local? id y := by
  by_cases hid : owner = id
  · subst hid
    obtain ⟨scope, hscope, hfind⟩ := Option.bind_eq_some_iff.mp hb
    rw [local?, local?, scope?_update, if_pos rfl, hscope]
    by_cases hy : y = x
    · simp [Scope.find?_setValue, hy, hfind]
    · simp [Scope.find?_setValue, hy]
  · rw [local?_update_of_ne _ _ hid, if_neg fun hc => hid hc.1.symm]

/-- What an assignment does: the nearest scope binds the name as a variable, which has the new value
now. -/
theorem assign_eq_ok {s s' : Store} {id : ScopeId} {x : String} {v : Value}
    (h : s.assign id x v = .ok s') :
    s'.nextId = s.nextId ∧ (∀ id', s'.parent? id' = s.parent? id') ∧
      ∃ owner b, s.local? owner x = some b ∧ b.constant = false ∧
        ∀ id' y, s'.local? id' y =
          if id' = owner ∧ y = x then some { b with value := v } else s.local? id' y := by
  obtain ⟨owner, howner, hvariable, rfl⟩ := assign_eq_ok_iff.mp h
  obtain ⟨b, hb⟩ := Option.isSome_iff_exists.mp (binds_of_resolve? howner)
  exact ⟨nextId_update _ _ _, parent?_update fun _ => rfl, owner, b, hb,
    by simpa [isConstant, hb] using hvariable, local?_setValue hb v⟩

/-- A declaration changes one scope, whether it exists or not. -/
theorem eq_update_of_declare {s s' : Store} {id : ScopeId} {x : String} {v : Value}
    {constant : Bool} (h : s.declare id x v constant = .ok s') :
    s' = s.update id (·.add x ⟨v, constant⟩) :=
  (declare_eq_ok_iff.mp h).2

/-- What is bound after a declaration was bound before, or is what was declared. -/
theorem local?_of_declare {s s' : Store} {id id' : ScopeId} {x y : String} {v : Value}
    {constant : Bool} {b : Binding} (h : s.declare id x v constant = .ok s')
    (hb : s'.local? id' y = some b) : s.local? id' y = some b ∨ b.value = v := by
  rw [eq_update_of_declare h] at hb
  by_cases hid : id = id'
  · subst hid
    rw [local?, scope?_update, if_pos rfl] at hb
    rw [local?]
    cases hscope : s.scope? id with
    | none =>
      -- a scope that is not there binds nothing afterwards either
      rw [hscope] at hb
      cases hb
    | some scope =>
      rw [hscope, Option.map_some, Option.bind_some, Scope.find?_add] at hb
      by_cases hy : y = x
      · rw [if_pos hy] at hb
        cases hb
        exact Or.inr rfl
      · rw [if_neg hy] at hb
        exact Or.inl hb
  · rw [local?_update_of_ne _ _ hid] at hb
    exact Or.inl hb

/-- What is bound after an assignment was bound before, or has the value assigned. -/
theorem local?_of_assign {s s' : Store} {id id' : ScopeId} {x y : String} {v : Value} {b : Binding}
    (h : s.assign id x v = .ok s') (hb : s'.local? id' y = some b) :
    s.local? id' y = some b ∨ b.value = v := by
  obtain ⟨-, -, owner, old, -, -, hlocals⟩ := assign_eq_ok h
  rw [hlocals] at hb
  by_cases hassigned : id' = owner ∧ y = x
  · rw [if_pos hassigned] at hb
    cases hb
    exact Or.inr rfl
  · rw [if_neg hassigned] at hb
    exact Or.inl hb

/-! ## Well-formed stores -/

/-- What holds of every store that a program can have: constants are bound, parents were made before
their scopes, and functions refer to scopes of the store. The first of these holds of every store,
since a constant is a binding with a flag. `Tables.constantsBound_of_edits` proves it where the
values and the constants of a scope are kept in two tables that are changed one by one. -/
structure WellFormed (s : Store) : Prop where
  constant_bound : ∀ id x, s.isConstant id x = true → s.binds id x = true
  parent_before : ∀ id p, s.parent? id = some p → p < id ∧ id < s.nextId
  values_below : ∀ id x b, s.local? id x = some b → b.value.Below s.nextId

/-- A later store keeps the scopes of an earlier one with their parents and names. Names stay
constants or variables, and constants keep their values. -/
structure Extends (s s' : Store) : Prop where
  nextId_le : s.nextId ≤ s'.nextId
  parent_eq : ∀ id, id < s.nextId → s'.parent? id = s.parent? id
  binding_kept : ∀ id x b, s.local? id x = some b →
    ∃ b', s'.local? id x = some b' ∧ b'.constant = b.constant ∧ (b.constant = true → b' = b)

theorem Extends.refl (s : Store) : s.Extends s where
  nextId_le := Nat.le_refl _
  parent_eq _ _ := rfl
  binding_kept _ _ b hb := ⟨b, hb, rfl, fun _ => rfl⟩

theorem Extends.trans {s₁ s₂ s₃ : Store} (h : s₁.Extends s₂) (h' : s₂.Extends s₃) :
    s₁.Extends s₃ where
  nextId_le := Nat.le_trans h.nextId_le h'.nextId_le
  parent_eq id hid := by
    rw [h'.parent_eq id (Nat.lt_of_lt_of_le hid h.nextId_le), h.parent_eq id hid]
  binding_kept id x b hb := by
    obtain ⟨b₂, hb₂, hflag₂, hvalue₂⟩ := h.binding_kept id x b hb
    obtain ⟨b₃, hb₃, hflag₃, hvalue₃⟩ := h'.binding_kept id x b₂ hb₂
    refine ⟨b₃, hb₃, hflag₃.trans hflag₂, fun hconstant => ?_⟩
    rw [hvalue₃ (hflag₂.trans hconstant), hvalue₂ hconstant]

/-- Names stay bound. -/
theorem Extends.binds {s s' : Store} (h : s.Extends s') {id : ScopeId} {x : String}
    (hbinds : s.binds id x = true) : s'.binds id x = true := by
  obtain ⟨b, hb⟩ := Option.isSome_iff_exists.mp hbinds
  obtain ⟨b', hb', -⟩ := h.binding_kept id x b hb
  rw [Store.binds, hb']
  rfl

theorem extends_push (s : Store) (parent : Option ScopeId) : s.Extends (s.push parent) where
  nextId_le := by
    rw [nextId_push]
    exact Nat.le_succ _
  parent_eq id hid := by rw [parent?_push, if_neg (Nat.ne_of_lt hid)]
  binding_kept id x b hb := ⟨b, by rw [local?_push, hb], rfl, fun _ => rfl⟩

/-- A declaration keeps what is bound, since the name was not bound before. In a scope that is not
there it changes nothing. -/
theorem extends_declare {s s' : Store} {id : ScopeId} {x : String} {v : Value} {constant : Bool}
    (h : s.declare id x v constant = .ok s') : s.Extends s' := by
  by_cases hid : id < s.nextId
  · obtain ⟨hfree, hnext, hparents, hlocals⟩ := declare_eq_ok hid h
    refine ⟨Nat.le_of_eq hnext.symm, fun id' _ => hparents id', fun id' y b hb => ?_⟩
    refine ⟨b, ?_, rfl, fun _ => rfl⟩
    rw [hlocals, if_neg ?_, hb]
    -- a name that is bound is not the one declared
    rintro ⟨rfl, rfl⟩
    rw [hfree] at hb
    cases hb
  · rw [eq_update_of_declare h, update_of_le (Nat.le_of_not_lt hid)]
    exact .refl s

theorem extends_assign {s s' : Store} {id : ScopeId} {x : String} {v : Value}
    (h : s.assign id x v = .ok s') : s.Extends s' := by
  obtain ⟨hnext, hparents, owner, old, hold, hvariable, hlocals⟩ := assign_eq_ok h
  refine ⟨Nat.le_of_eq hnext.symm, fun id' _ => hparents id', fun id' y b hb => ?_⟩
  by_cases hassigned : id' = owner ∧ y = x
  · -- what is assigned to is a variable, whose value may change
    obtain ⟨rfl, rfl⟩ := hassigned
    rw [hold, Option.some.injEq] at hb
    subst hb
    have hnew : s'.local? id' y = some { old with value := v } := by
      rw [hlocals, if_pos ⟨rfl, rfl⟩]
    refine ⟨{ old with value := v }, hnew, rfl, fun hconstant => ?_⟩
    rw [hvariable] at hconstant
    cases hconstant
  · exact ⟨b, by rw [hlocals, if_neg hassigned, hb], rfl, fun _ => rfl⟩

/-- Constants are bindings with a flag, so a name that is constant in a scope is bound there. -/
theorem binds_of_isConstant {s : Store} {id : ScopeId} {x : String}
    (h : s.isConstant id x = true) : s.binds id x = true := by
  rw [binds]
  rw [isConstant] at h
  cases hlocal : s.local? id x with
  | none =>
    rw [hlocal] at h
    cases h
  | some b => rfl

theorem wellFormed_empty : empty.WellFormed where
  constant_bound _ _ := binds_of_isConstant
  parent_before id p h := by
    rw [parent?, scope?, empty] at h
    simp at h
  values_below id x b h := by
    rw [local?, scope?, empty] at h
    simp at h

/-! ## Edits -/

/-- One change of a store. The scopes it names exist, as do those of the value it binds. -/
inductive Edit : Store → Store → Prop
  | push {s : Store} {parent : Option ScopeId} :
      (∀ p ∈ parent, p < s.nextId) → Edit s (s.push parent)
  | declare {s s' : Store} {id : ScopeId} {x : String} {v : Value} {constant : Bool} :
      id < s.nextId → v.Below s.nextId → s.declare id x v constant = .ok s' → Edit s s'
  | assign {s s' : Store} {id : ScopeId} {x : String} {v : Value} :
      id < s.nextId → v.Below s.nextId → s.assign id x v = .ok s' → Edit s s'

/-- Any number of changes. -/
abbrev Edits : Store → Store → Prop :=
  Relation.ReflTransGen Edit

/-- Binding a value whose scope exists keeps a store well-formed. -/
theorem WellFormed.bind {s s' : Store} (hs : s.WellFormed) {v : Value} (hv : v.Below s.nextId)
    (hnext : s'.nextId = s.nextId) (hparents : ∀ id, s'.parent? id = s.parent? id)
    (hlocals : ∀ id x b, s'.local? id x = some b → s.local? id x = some b ∨ b.value = v) :
    s'.WellFormed where
  constant_bound _ _ := binds_of_isConstant
  parent_before id p hp := by
    rw [hparents] at hp
    rw [hnext]
    exact hs.parent_before id p hp
  values_below id x b hb := by
    rw [hnext]
    rcases hlocals id x b hb with hold | hnew
    · exact hs.values_below id x b hold
    · rw [hnew]
      exact hv

/-- Making a scope, declaring and assigning keep a store well-formed. -/
theorem Edit.wellFormed {s s' : Store} (h : Edit s s') (hs : s.WellFormed) : s'.WellFormed := by
  cases h with
  | @push parent hparent =>
    refine ⟨fun _ _ => binds_of_isConstant, ?_, ?_⟩
    · intro id p hp
      rw [parent?_push] at hp
      -- the new scope has a parent that exists, and the others are as before
      by_cases hid : id = s.nextId
      · rw [if_pos hid] at hp
        rw [nextId_push, hid]
        exact ⟨hparent p hp, Nat.lt_succ_self _⟩
      · rw [if_neg hid] at hp
        obtain ⟨hlt, hexists⟩ := hs.parent_before id p hp
        rw [nextId_push]
        exact ⟨hlt, Nat.lt_succ_of_lt hexists⟩
    · intro id x b hb
      rw [local?_push] at hb
      exact (hs.values_below id x b hb).mono (by simp)
  | @declare _ id x v constant hid hv h =>
    obtain ⟨-, hnext, hparents, -⟩ := declare_eq_ok hid h
    exact hs.bind hv hnext hparents fun _ _ _ => local?_of_declare h
  | @assign _ id x v hid hv h =>
    obtain ⟨hnext, hparents, -⟩ := assign_eq_ok h
    exact hs.bind hv hnext hparents fun _ _ _ => local?_of_assign h

theorem Edit.extends {s s' : Store} (h : Edit s s') : s.Extends s' := by
  cases h with
  | push _ => exact extends_push s _
  | declare _ _ h => exact extends_declare h
  | assign _ _ h => exact extends_assign h

/-- So does any number of edits. -/
theorem Edits.wellFormed {s s' : Store} (h : Edits s s') (hs : s.WellFormed) : s'.WellFormed := by
  induction h with
  | refl => exact hs
  | tail _ hedit ih => exact hedit.wellFormed ih

theorem Edits.extends {s s' : Store} (h : Edits s s') : s.Extends s' := by
  induction h with
  | refl => exact .refl s
  | tail _ hedit ih => exact ih.trans hedit.extends

/-- Every constant has the value that it was declared with. -/
theorem Edits.constant_declared {s : Store} (h : Edits empty s) {id : ScopeId} {x : String}
    {v : Value} (hconstant : s.local? id x = some ⟨v, true⟩) :
    ∃ s₀ s₁, Edits empty s₀ ∧ s₀.declare id x v true = .ok s₁ ∧ Edits s₁ s := by
  induction h with
  | refl =>
    rw [local?, scope?, empty] at hconstant
    simp at hconstant
  | @tail s s' hedits hedit ih =>
    -- either the last edit made the constant, or it was there before
    suffices hbefore : s.local? id x = some ⟨v, true⟩ ∨ s.declare id x v true = .ok s' by
      rcases hbefore with hbefore | hdeclared
      · obtain ⟨s₀, s₁, h₀, hdeclared, h₁⟩ := ih hbefore
        exact ⟨s₀, s₁, h₀, hdeclared, h₁.tail hedit⟩
      · exact ⟨s, s', hedits, hdeclared, .refl⟩
    cases hedit with
    | push _ =>
      rw [local?_push] at hconstant
      exact Or.inl hconstant
    | @declare _ id' y v' constant hid _ hok =>
      obtain ⟨-, -, -, hlocals⟩ := declare_eq_ok hid hok
      rw [hlocals] at hconstant
      by_cases hnew : id = id' ∧ x = y
      · obtain ⟨rfl, rfl⟩ := hnew
        rw [if_pos ⟨rfl, rfl⟩] at hconstant
        cases hconstant
        exact Or.inr hok
      · rw [if_neg hnew] at hconstant
        exact Or.inl hconstant
    | @assign _ id' y v' _ _ hok =>
      obtain ⟨-, -, owner, old, -, hvariable, hlocals⟩ := assign_eq_ok hok
      rw [hlocals] at hconstant
      by_cases hassigned : id = owner ∧ x = y
      · rw [if_pos hassigned, Option.some.injEq, Binding.mk.injEq, hvariable] at hconstant
        cases hconstant.2
      · rw [if_neg hassigned] at hconstant
        exact Or.inl hconstant

/-! ## The walk outwards -/

/-- The scope that `n` steps outwards lead to. -/
def ancestor? (s : Store) (id : ScopeId) : Nat → Option ScopeId
  | 0 => some id
  | n + 1 => (s.ancestor? id n).bind s.parent?

/-- Each step outwards leads to a scope that was made before. -/
theorem WellFormed.ancestor?_le {s : Store} (hs : s.WellFormed) {id a : ScopeId} {n : Nat}
    (h : s.ancestor? id n = some a) : a + n ≤ id := by
  induction n generalizing a with
  | zero =>
    cases h
    exact Nat.le_refl _
  | succ n ih =>
    obtain ⟨b, hb, hparent⟩ := Option.bind_eq_some_iff.mp h
    have hlt := (hs.parent_before b a hparent).1
    calc a + (n + 1) = a + 1 + n := Nat.add_right_comm a n 1
      _ ≤ b + n := Nat.add_le_add_right hlt n
      _ ≤ id := ih hb

/-- The walk outwards ends. -/
theorem WellFormed.ancestor?_eq_none {s : Store} (hs : s.WellFormed) (id : ScopeId) :
    s.ancestor? id (id + 1) = none := by
  rw [Option.eq_none_iff_forall_ne_some]
  intro a ha
  have hle : a + (id + 1) ≤ id := hs.ancestor?_le ha
  exact Nat.not_succ_le_self id (Nat.le_trans (Nat.le_add_left _ a) hle)

/-- Scopes are made after their parents, so that every walk outwards falls and ends. -/
def ParentsFirst (s : Store) : Prop :=
  ∀ id p, s.parent? id = some p → p < id

theorem WellFormed.parentsFirst {s : Store} (hs : s.WellFormed) : s.ParentsFirst :=
  fun id p hp => (hs.parent_before id p hp).1

/-- The search for a name goes on in the parent, whichever that is. -/
theorem ParentsFirst.resolve?_eq {s : Store} (hs : s.ParentsFirst) (x : String) (id : ScopeId) :
    s.resolve? x id =
      if s.binds id x then some id else (s.parent? id).bind (s.resolve? x) := by
  rw [resolve?]
  by_cases hbinds : s.binds id x = true
  · rw [if_pos hbinds, if_pos hbinds]
  · rw [if_neg hbinds, if_neg hbinds]
    cases hp : s.parent? id with
    | none => rfl
    | some p => exact if_pos (hs id p hp)

/-- The search for a name, as a recursion on the scopes outwards. -/
theorem WellFormed.resolve?_eq {s : Store} (hs : s.WellFormed) (x : String) (id : ScopeId) :
    s.resolve? x id =
      if s.binds id x then some id else (s.parent? id).bind (s.resolve? x) :=
  hs.parentsFirst.resolve?_eq x id

end Store

end Scriptlet
