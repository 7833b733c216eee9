import Scriptlet.Proofs.Store

/-! # Values and constants in tables of their own

A store keeps with every value whether its name is a constant, so a constant is bound by the form of
a store. The values and the names of constants can also be kept in two tables that know nothing of
each other. A declaration then makes an entry in both, an assignment looks into one and changes the
other, and that constants are bound is for the operations to keep (`Tables.constantsBound_of_edits`).

`Store.tables` leads from the first form to the second. Every operation does the same in both, with
the same errors, so the tables that edits lead to are those of the stores that edits lead to
(`Store.edits_tables_iff`).
-/

namespace Scriptlet

/-- Scopes with two tables: the values of names, and which names are constants. -/
@[ext] structure Tables where
  nextId : ScopeId
  parent? : ScopeId → Option ScopeId
  value? : ScopeId → String → Option Value
  isConstant : ScopeId → String → Bool

namespace Tables

/-- Changes the entry of one name in one scope. -/
def enter {α : Type} (table : ScopeId → String → α) (id : ScopeId) (x : String) (a : α) :
    ScopeId → String → α :=
  fun id' y => if id' = id ∧ y = x then a else table id' y

/-- Whether the scope itself has a value for a name. -/
def binds (t : Tables) (id : ScopeId) (x : String) : Bool :=
  (t.value? id x).isSome

/-- Makes a scope without entries. -/
def push (t : Tables) (parent : Option ScopeId) : Tables where
  nextId := t.nextId + 1
  parent? id := if id = t.nextId then parent else t.parent? id
  value? id x := if id = t.nextId then none else t.value? id x
  isConstant id x := if id = t.nextId then false else t.isConstant id x

/-- The nearest scope that has a value for a name, from the given one outwards. -/
def resolve? (t : Tables) (x : String) (id : ScopeId) : Option ScopeId :=
  if t.binds id x then some id
  else
    match t.parent? id with
    | some p => if p < id then t.resolve? x p else none
    | none => none
termination_by id

/-- Enters the value of a name that has none in the scope, and the name if it is a constant. -/
def declare (t : Tables) (id : ScopeId) (x : String) (v : Value) (constant : Bool) :
    Except RuntimeError.Cause Tables :=
  if t.binds id x then .error (.redeclared x)
  else .ok { t with
    value? := enter t.value? id x (some v)
    isConstant := if constant then enter t.isConstant id x true else t.isConstant }

/-- Enters another value in the nearest scope that has one, unless the name is a constant there. -/
def assign (t : Tables) (id : ScopeId) (x : String) (v : Value) :
    Except RuntimeError.Cause Tables :=
  match t.resolve? x id with
  | some owner =>
    if t.isConstant owner x then .error (.constantAssigned x)
    else .ok { t with value? := enter t.value? owner x (some v) }
  | none => .error (.unresolved x)

/-- One change of the tables, with the scopes and values that an edit of a store may have. -/
inductive Edit : Tables → Tables → Prop
  | push {t : Tables} {parent : Option ScopeId} :
      (∀ p ∈ parent, p < t.nextId) → Edit t (t.push parent)
  | declare {t t' : Tables} {id : ScopeId} {x : String} {v : Value} {constant : Bool} :
      id < t.nextId → v.Below t.nextId → t.declare id x v constant = .ok t' → Edit t t'
  | assign {t t' : Tables} {id : ScopeId} {x : String} {v : Value} :
      id < t.nextId → v.Below t.nextId → t.assign id x v = .ok t' → Edit t t'

/-! ## Constants are bound -/

/-- Every name in the table of constants has a value. -/
def ConstantsBound (t : Tables) : Prop :=
  ∀ id x, t.isConstant id x = true → t.binds id x = true

/-- A value that is entered takes none away. -/
theorem isSome_enter {table : ScopeId → String → Option Value} {id id' : ScopeId} {x y : String}
    (v : Value) (h : (table id' y).isSome) : (enter table id x (some v) id' y).isSome := by
  rw [enter]
  split
  · rfl
  · exact h

theorem Edit.constantsBound {t t' : Tables} (h : Edit t t') (ht : t.ConstantsBound) :
    t'.ConstantsBound := by
  intro id y hconstant
  cases h with
  | push _ =>
    simp only [Tables.push, binds] at hconstant ⊢
    by_cases hid : id = t.nextId
    · rw [if_pos hid] at hconstant
      cases hconstant
    · rw [if_neg hid] at hconstant ⊢
      exact ht id y hconstant
  | @declare _ id' x v constant _ _ hok =>
    rw [Tables.declare] at hok
    split at hok
    · cases hok
    · cases hok
      cases constant with
      | false => exact isSome_enter v (ht id y hconstant)
      | true =>
        have hentered : enter t.isConstant id' x true id y = true := hconstant
        by_cases hnew : id = id' ∧ y = x
        · -- the name that is declared gets its value at the same time
          show (enter t.value? id' x (some v) id y).isSome = true
          rw [enter, if_pos hnew]
          rfl
        · rw [enter, if_neg hnew] at hentered
          exact isSome_enter v (ht id y hentered)
  | assign _ _ hok =>
    rw [Tables.assign] at hok
    split at hok
    · split at hok
      · cases hok
      · cases hok
        exact isSome_enter _ (ht id y hconstant)
    · cases hok

end Tables

namespace Store

/-- The values of a store and its constants, each in a table. -/
def tables (s : Store) : Tables where
  nextId := s.nextId
  parent? := s.parent?
  value? id x := (s.local? id x).map (·.value)
  isConstant := s.isConstant

variable {s s' : Store} {id : ScopeId} {x : String} {v : Value} {constant : Bool}

/-! ## Operations on both forms -/

@[simp] theorem binds_tables (s : Store) (id : ScopeId) (x : String) :
    s.tables.binds id x = s.binds id x := by
  rw [Tables.binds, tables, Option.isSome_map, binds]

theorem tables_push (s : Store) (parent : Option ScopeId) :
    (s.push parent).tables = s.tables.push parent := by
  have hlocal (x : String) : s.local? s.nextId x = none := by
    rw [local?, scope?_nextId]
    rfl
  ext1
  · exact nextId_push s parent
  · exact funext fun id => parent?_push s parent id
  · funext id x
    show ((s.push parent).local? id x).map _ = if id = s.nextId then none else (s.local? id x).map _
    rw [local?_push]
    split
    · next hid => rw [hid, hlocal, Option.map_none]
    · rfl
  · funext id x
    show (s.push parent).isConstant id x = if id = s.nextId then false else s.isConstant id x
    rw [isConstant, local?_push]
    split
    · next hid => rw [hid, hlocal, Option.any_none]
    · rfl

theorem resolve?_tables (s : Store) (x : String) (id : ScopeId) :
    s.tables.resolve? x id = s.resolve? x id := by
  induction id using Nat.strongRecOn with
  | ind id ih =>
    have hparent : s.tables.parent? id = s.parent? id := rfl
    rw [Tables.resolve?, resolve?, binds_tables, hparent]
    cases hp : s.parent? id with
    | none => rfl
    | some p =>
      by_cases hlt : p < id
      · simp only [if_pos hlt, ih p hlt]
      · simp only [if_neg hlt]

/-- A declaration does the same in both forms. -/
theorem declare_tables (hid : id < s.nextId) :
    s.tables.declare id x v constant = (s.declare id x v constant).map tables := by
  rw [Tables.declare, binds_tables]
  cases hdeclare : s.declare id x v constant with
  | error cause =>
    rw [declare] at hdeclare
    split at hdeclare
    · next hbinds =>
      cases hdeclare
      rw [if_pos hbinds]
      rfl
    · cases hdeclare
  | ok s' =>
    obtain ⟨hfree, hnext, hparents, hlocals⟩ := declare_eq_ok hid hdeclare
    have hunbound : s.binds id x = false := by
      rw [binds, hfree]
      rfl
    rw [hunbound, if_neg Bool.false_ne_true]
    refine congrArg Except.ok (Tables.ext hnext.symm (funext hparents).symm ?_ ?_)
    · funext id' y
      show Tables.enter s.tables.value? id x (some v) id' y = (s'.local? id' y).map _
      rw [hlocals, Tables.enter]
      split <;> rfl
    · funext id' y
      show (if constant = true then Tables.enter s.isConstant id x true else s.isConstant) id' y =
        s'.isConstant id' y
      have hnew : s'.isConstant id' y =
          if id' = id ∧ y = x then constant else s.isConstant id' y := by
        rw [isConstant, hlocals]
        split <;> rfl
      rw [hnew]
      cases constant with
      | true => rfl
      | false =>
        -- a name that is not bound is not in the table of constants
        rw [if_neg Bool.false_ne_true]
        split
        · next hdeclared => rw [hdeclared.1, hdeclared.2, isConstant, hfree, Option.any_none]
        · rfl

/-- An assignment does the same in both forms. -/
theorem assign_tables (s : Store) (id : ScopeId) (x : String) (v : Value) :
    s.tables.assign id x v = (s.assign id x v).map tables := by
  rw [Tables.assign, assign, resolve?_tables]
  cases howner : s.resolve? x id with
  | none => rfl
  | some owner =>
    have hconstant : s.tables.isConstant owner x = s.isConstant owner x := rfl
    simp only [hconstant]
    by_cases hvariable : s.isConstant owner x = true
    · rw [if_pos hvariable, if_pos hvariable]
      rfl
    · obtain ⟨b, hb⟩ := Option.isSome_iff_exists.mp (binds_of_resolve? howner)
      have hlocals := local?_setValue hb v
      have hparents (id' : ScopeId) : (s.update owner (·.setValue x v)).parent? id' = s.parent? id' :=
        parent?_update (f := (·.setValue x v)) (fun _ => rfl) id'
      rw [if_neg hvariable, if_neg hvariable]
      refine congrArg Except.ok (Tables.ext (nextId_update _ _ _).symm (funext hparents).symm ?_ ?_)
      · funext id' y
        show Tables.enter s.tables.value? owner x (some v) id' y = Option.map _ (local? _ id' y)
        rw [hlocals, Tables.enter]
        split <;> rfl
      · funext id' y
        show s.isConstant id' y = isConstant _ id' y
        rw [isConstant, isConstant, hlocals]
        split
        · next hassigned => rw [hassigned.1, hassigned.2, hb, Option.any_some, Option.any_some]
        · rfl

/-! ## Edits of both forms -/

theorem Edit.tables (h : Edit s s') : Tables.Edit s.tables s'.tables := by
  cases h with
  | @push parent hparent =>
    rw [tables_push]
    exact .push hparent
  | declare hid hv h => exact .declare hid hv (by rw [declare_tables hid, h]; rfl)
  | assign hid hv h => exact .assign hid hv (by rw [assign_tables, h]; rfl)

theorem exists_of_map_tables {r : Except RuntimeError.Cause Store} {t : Tables}
    (h : r.map tables = .ok t) : ∃ s', r = .ok s' ∧ s'.tables = t := by
  cases r with
  | error cause => cases h
  | ok s' => exact ⟨s', rfl, Except.ok.inj h⟩

/-- Every edit of the tables of a store comes from one of the store. -/
theorem exists_edit_of_tables {t : Tables} (h : Tables.Edit s.tables t) :
    ∃ s', Edit s s' ∧ s'.tables = t := by
  cases h with
  | @push parent hparent => exact ⟨s.push parent, .push hparent, tables_push s parent⟩
  | @declare _ id x v constant hid hv h =>
    rw [declare_tables hid] at h
    obtain ⟨s', hok, rfl⟩ := exists_of_map_tables h
    exact ⟨s', .declare hid hv hok, rfl⟩
  | @assign _ id x v hid hv h =>
    rw [assign_tables] at h
    obtain ⟨s', hok, rfl⟩ := exists_of_map_tables h
    exact ⟨s', .assign hid hv hok, rfl⟩

/-- The tables that edits lead to are those of the stores that edits lead to. -/
theorem edits_tables_iff {t : Tables} :
    Relation.ReflTransGen Tables.Edit s.tables t ↔ ∃ s', Edits s s' ∧ s'.tables = t := by
  constructor
  · intro h
    induction h with
    | refl => exact ⟨s, .refl, rfl⟩
    | tail _ hedit ih =>
      obtain ⟨s₁, hedits, rfl⟩ := ih
      obtain ⟨s₂, hlast, rfl⟩ := exists_edit_of_tables hedit
      exact ⟨s₂, hedits.tail hlast, rfl⟩
  · rintro ⟨s', hedits, rfl⟩
    exact hedits.lift tables fun _ _ => Edit.tables

end Store

/-- Constants are bound in all tables that edits lead to from tables where they are. -/
theorem Tables.constantsBound_of_edits {t t' : Tables} (h : Relation.ReflTransGen Edit t t')
    (ht : t.ConstantsBound) : t'.ConstantsBound := by
  induction h with
  | refl => exact ht
  | tail _ hedit ih => exact hedit.constantsBound ih

end Scriptlet
