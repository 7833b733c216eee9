import Scriptlet.Run
import Scriptlet.Proofs.Eval.Invariant

/-! # Programs keep the store of scopes in order

Every evaluation changes the store by edits only, whether it succeeds or fails, and the values it
gives refer to scopes that exist (`Store.editing`). What the host does to a store from outside, runs
of programs and calls included, is then a sequence of edits too.
-/

namespace Scriptlet

namespace Store

open Eval

/-- The store is well formed and changes by edits, and all values and scopes exist. The world is the
store itself. -/
def editing : Invariant .all where
  World := Store
  Later := Edits
  store s s' := s' = s ∧ s.WellFormed
  value s v := v.Below s.nextId
  scope s id := id < s.nextId
  later_refl _ := .refl
  later_trans h h' := h.trans h'
  value_later h hv := hv.mono h.extends.nextId_le
  scope_later h hid := Nat.lt_of_lt_of_le hid h.extends.nextId_le
  plain h := h.mono (Nat.zero_le _)
  function := (and_iff_left ⟨trivial, fun _ _ => trivial⟩).symm
  found := by
    rintro _ s id x b ⟨rfl, hs⟩ - - hb
    obtain ⟨owner, -, hlocal⟩ := local?_of_find? hb
    exact hs.values_below owner x b hlocal
  push := by
    rintro _ s parent ⟨rfl, hs⟩ hparent
    have hedit : Edit s (s.push parent) := .push hparent
    refine ⟨s.push parent, .single hedit, ⟨rfl, hedit.wellFormed hs⟩, ?_⟩
    rw [nextId_push]
    exact Nat.lt_succ_self _
  declare := by
    rintro _ s s' id x v constant ⟨rfl, hs⟩ hid - hv hdeclare
    have hedit : Edit s s' := .declare hid hv hdeclare
    exact ⟨s', .single hedit, rfl, hedit.wellFormed hs⟩
  assign := by
    rintro _ s s' id x v ⟨rfl, hs⟩ hid - hv hassign
    have hedit : Edit s s' := .assign hid hv hassign
    exact ⟨s', .single hedit, rfl, hedit.wellFormed hs⟩

/-! ## Stores that the host can reach -/

/-- What the host can do to a store: make scopes, declare names and assign to them, install what it
provides, run programs and call functions. The scopes and values that it passes exist. A declaration
or an assignment that fails changes nothing; all else counts whether it succeeds or fails. -/
inductive Step : Store → Store → Prop
  | root {s : Store} : Step s (s.push none)
  | child {s : Store} {p : ScopeId} : p < s.nextId → Step s (s.push (some p))
  | declare {s s' : Store} {id : ScopeId} {x : String} {v : Value} {constant : Bool} :
      id < s.nextId → v.Below s.nextId → s.declare id x v constant = .ok s' → Step s s'
  | assign {s s' : Store} {id : ScopeId} {x : String} {v : Value} :
      id < s.nextId → v.Below s.nextId → s.assign id x v = .ok s' → Step s s'
  | install {m m' : Machine} {scope : ScopeId} {channel : Channel} :
      scope < m.store.nextId → (Native.install scope channel m).EndsIn m' → Step m.store m'.store
  | program {m m' : Machine} {limit fuel : Nat} {scope : ScopeId} {p : Program} :
      scope < m.store.nextId → (p.eval limit fuel scope m).EndsIn m' → Step m.store m'.store
  | call {m m' : Machine} {limit fuel : Nat} {f : Function} {arguments : List Value}
      {pos : Position} :
      f.closure < m.store.nextId → (∀ v ∈ arguments, v.Below m.store.nextId) →
      (callFunction limit fuel f arguments pos m).EndsIn m' → Step m.store m'.store

/-- What the host can do to a store in any number of steps. -/
abbrev Reaches : Store → Store → Prop :=
  Relation.ReflTransGen Step

/-- An evaluation that keeps stores in order and ends has made edits. -/
theorem edits_of_keeps {α : Type} {x : Eval α} {post : Store → α → Prop} {m m' : Machine}
    (hx : Keeps editing m.store x post) (hm : m.store.WellFormed) (hends : (x m).EndsIn m') :
    Edits m.store m'.store := by
  obtain ⟨s, hedits, rfl, -⟩ := hx.store_of_endsIn ⟨rfl, hm⟩ hends
  exact hedits

theorem Step.edits {s s' : Store} (h : Step s s') (hs : s.WellFormed) : Edits s s' := by
  cases h with
  | root => exact .single (.push nofun)
  | child hp =>
    refine .single (.push ?_)
    rintro p ⟨⟩
    exact hp
  | declare hid hv hok => exact .single (.declare hid hv hok)
  | assign hid hv hok => exact .single (.assign hid hv hok)
  | install hscope hends =>
    exact edits_of_keeps (keeps_install hscope _ (fun _ _ => trivial) trivial) hs hends
  | program hscope hends =>
    exact edits_of_keeps (Program.keeps editing _ (fun _ _ => trivial) _ _ _ hscope) hs hends
  | call hclosure harguments hends =>
    exact edits_of_keeps ((keepsWith editing _ _).call hclosure harguments trivial) hs hends

theorem Reaches.edits {s s' : Store} (h : Reaches s s') (hs : s.WellFormed) : Edits s s' := by
  induction h with
  | refl => exact .refl
  | tail _ hstep ih => exact ih.trans (hstep.edits (ih.wellFormed hs))

theorem declare_eq_done {scope : ScopeId} {x : String} {v u : Value} {constant : Bool}
    {pos : Position} {m m' : Machine} (h : Eval.declare scope x v constant pos m = .done u m') :
    ∃ s, m.store.declare scope x v constant = .ok s ∧ m' = { m with store := s } := by
  rw [Eval.declare] at h
  cases hdeclare : m.store.declare scope x v constant with
  | error cause =>
    simp only [hdeclare] at h
    cases h
  | ok s =>
    simp only [hdeclare] at h
    cases h
    exact ⟨s, rfl, rfl⟩

/-- A function that has been declared is a constant of its scope. -/
theorem local?_of_function {limit fuel : Nat} {scope : ScopeId} {name : String}
    {params : List String} {body : List Stmt} {pos : Position} {v : Value} {m m' : Machine}
    (hscope : scope < m.store.nextId)
    (h : evalStmt limit fuel scope (.function name params body pos) m = .done v m') :
    m'.store.local? scope name = some ⟨.function ⟨name, params, body, scope⟩, true⟩ := by
  cases fuel with
  | zero =>
    rw [evalStmt] at h
    cases h
  | succ fuel =>
    rw [evalStmt] at h
    obtain ⟨s, hdeclare, rfl⟩ := declare_eq_done h
    rw [(declare_eq_ok hscope hdeclare).2.2.2, if_pos ⟨rfl, rfl⟩]

/-- Names declared one after another are all bound in the end. -/
theorem local?_of_declareAll {scope : ScopeId} {constant : Bool} {pos : Position}
    {entries : List (String × Value)} {m m' : Machine} {u : Unit} (hscope : scope < m.store.nextId)
    (h : declareAll scope constant pos entries m = .done u m') :
    (∀ id y b, m.store.local? id y = some b → m'.store.local? id y = some b) ∧
      ∀ entry ∈ entries, m'.store.local? scope entry.1 = some ⟨entry.2, constant⟩ := by
  induction entries generalizing m with
  | nil =>
    cases h
    exact ⟨fun _ _ _ hb => hb, fun _ hentry => nomatch hentry⟩
  | cons entry entries ih =>
    obtain ⟨x, v⟩ := entry
    rw [declareAll, bind_apply] at h
    cases hfirst : Eval.declare scope x v constant pos m with
    | failed e m₁ | unfinished =>
      rw [hfirst] at h
      cases h
    | done w m₁ =>
      rw [hfirst] at h
      obtain ⟨s, hdeclare, rfl⟩ := declare_eq_done hfirst
      obtain ⟨hfree, hnext, -, hlocals⟩ := declare_eq_ok hscope hdeclare
      obtain ⟨hkept, hbound⟩ := ih (by rw [hnext]; exact hscope) h
      -- the names after the first one do not change it, as they are only declared
      refine ⟨fun id y b hb => hkept id y b ?_, fun entry hentry => ?_⟩
      · rw [hlocals, if_neg ?_, hb]
        rintro ⟨rfl, rfl⟩
        rw [hfree] at hb
        cases hb
      · rcases List.mem_cons.mp hentry with rfl | hentry
        · refine hkept scope x _ ?_
          rw [hlocals, if_pos ⟨rfl, rfl⟩]
        · exact hbound entry hentry

/-- What holds of every store that the host can reach, and of every one that it can reach from
there: scopes are made after their parents and keep them, so that the walk outwards ends, and names
stay bound as constants or as variables. Constants have the value they were declared with, and both
functions and what the host provides are constants. -/
theorem reachable_in_order {s s' : Store} (hs : Reaches empty s) (hs' : Reaches s s') :
    s.WellFormed ∧ s.Extends s' ∧ (∀ id, ∃ n, s.ancestor? id n = none) ∧
      (∀ x id, s.resolve? x id =
        if s.binds id x then some id else (s.parent? id).bind (s.resolve? x)) ∧
      (∀ id x v, s.local? id x = some ⟨v, true⟩ →
        ∃ s₀ s₁, Edits empty s₀ ∧ s₀.declare id x v true = .ok s₁ ∧ Edits s₁ s) ∧
      (∀ limit fuel scope name params body pos v m m', m.store = s → scope < s.nextId →
        evalStmt limit fuel scope (.function name params body pos) m = .done v m' →
        m'.store.local? scope name = some ⟨.function ⟨name, params, body, scope⟩, true⟩) ∧
      (∀ scope channel u m m', m.store = s → scope < s.nextId →
        Native.install scope channel m = .done u m' →
        ∀ entry ∈ Native.bindings scope channel,
          m'.store.local? scope entry.1 = some ⟨entry.2, true⟩) := by
  have hedits := hs.edits wellFormed_empty
  have hwf := hedits.wellFormed wellFormed_empty
  refine ⟨hwf, (hs'.edits hwf).extends, fun id => ⟨id + 1, hwf.ancestor?_eq_none id⟩,
    hwf.resolve?_eq, fun id x v => hedits.constant_declared, ?_, ?_⟩
  · rintro limit fuel scope name params body pos v m m' rfl hscope h
    exact local?_of_function hscope h
  · rintro scope channel u m m' rfl hscope h
    exact (local?_of_declareAll hscope h).2

/-- Makes a function that changes a variable of the call that made it, and calls the function after
that call has ended. -/
def closureProgram : Program :=
  [.function "make" []
      [.declare "on" (some (.bool true .nowhere)) false .nowhere,
        .function "flip" []
          [.expr (.assign (.identifier "on" .nowhere) (.not (.identifier "on" .nowhere) .nowhere)
            .nowhere)] .nowhere,
        .expr (.identifier "flip" .nowhere)] .nowhere,
    .declare "flip" (some (.call (.identifier "make" .nowhere) [] .nowhere)) true .nowhere,
    .expr (.call (.identifier "flip" .nowhere) [] .nowhere)]

/-- The machine after the program has run in a scope without names. -/
def closureMachine : Machine :=
  (closureProgram.eval 2 16 0 (.bare .none)).machineOr (.bare .none)

theorem closureMachine_in_order :
    Reaches empty closureMachine.store ∧
      Reaches closureMachine.store (closureMachine.store.push none) ∧
      closureMachine.store.WellFormed ∧
      closureMachine.store.Extends (closureMachine.store.push none) := by
  have hfinished : (match closureProgram.eval 2 16 0 (.bare .none) with
      | .unfinished => false
      | .done _ _ | .failed _ _ => true) = true := by
    decide +kernel
  have hends : (closureProgram.eval 2 16 0 (.bare .none)).EndsIn closureMachine := by
    rw [closureMachine]
    cases hrun : closureProgram.eval 2 16 0 (.bare .none) with
    | done v m | failed e m => exact rfl
    | unfinished =>
      rw [hrun] at hfinished
      cases hfinished
  have hroot : Reaches empty (Machine.bare .none).store := .single .root
  have hrun : Reaches empty closureMachine.store := hroot.tail (.program (by decide) hends)
  have hpush : Reaches closureMachine.store (closureMachine.store.push none) := .single .root
  obtain ⟨hwf, hextends, -⟩ := reachable_in_order hrun hpush
  exact ⟨hrun, hpush, hwf, hextends⟩

end Store

end Scriptlet
