import Scriptlet.Proofs.Eval.Balance
import Scriptlet.Proofs.Store

/-! # Entering a function

Before the body of a function runs, a call checks the number of arguments, then the depth, and then
declares the parameters one after another in a new scope. Each step may refuse the call. A refused
call has made at most one scope, which nothing refers to, and all that was there before is as it was.
If no step refuses, the body starts in the new scope, which binds the parameters and nothing else
(`call_entry`).
-/

namespace Scriptlet

/-! ## Names declared one after another -/

/-- Adds bindings one after another, all as constants or all as variables. -/
def Scope.addAll (s : Scope) (constant : Bool) (entries : List (String × Value)) : Scope :=
  entries.foldl (fun s entry => s.add entry.1 ⟨entry.2, constant⟩) s

section AddAll

variable {constant : Bool} {entries : List (String × Value)}

theorem Scope.addAll_cons (s : Scope) (y : String) (v : Value) :
    s.addAll constant ((y, v) :: entries) = (s.add y ⟨v, constant⟩).addAll constant entries :=
  List.foldl_cons

theorem Scope.parent_addAll (s : Scope) : (s.addAll constant entries).parent = s.parent := by
  induction entries generalizing s with
  | nil => rfl
  | cons entry entries ih => exact ih (s.add entry.1 ⟨entry.2, constant⟩)

/-- A name is bound after all have been added if it is one of them or was bound before. -/
theorem Scope.isSome_find?_addAll (s : Scope) (x : String) :
    ((s.addAll constant entries).find? x).isSome ↔
      x ∈ entries.map Prod.fst ∨ (s.find? x).isSome := by
  induction entries generalizing s with
  | nil => simp [addAll]
  | cons entry entries ih =>
    rw [addAll_cons, ih, find?_add]
    by_cases hx : x = entry.1
    · simp [hx]
    · simp [hx]

/-- If the added names are different, each has the value that it was added with. -/
theorem Scope.find?_addAll (hnodup : (entries.map Prod.fst).Nodup) (s : Scope) (x : String)
    (b : Binding) :
    (s.addAll constant entries).find? x = some b ↔
      (x, b.value) ∈ entries ∧ b.constant = constant ∨
        x ∉ entries.map Prod.fst ∧ s.find? x = some b := by
  induction entries generalizing s with
  | nil => simp [addAll]
  | cons entry entries ih =>
    obtain ⟨y, v⟩ := entry
    obtain ⟨hy, hnodup⟩ := List.nodup_cons.mp hnodup
    rw [addAll_cons, ih hnodup, find?_add]
    obtain ⟨u, c⟩ := b
    by_cases hx : x = y
    · subst hx
      have hu : (x, u) ∉ entries := fun h => hy (List.mem_map.mpr ⟨(x, u), h, rfl⟩)
      simp [hy, hu, eq_comm]
    · simp [hx]

end AddAll

theorem Store.binds_update_addAll {s : Store} {id : ScopeId} (hid : id < s.nextId)
    (constant : Bool) (entries : List (String × Value)) (x : String) :
    (s.update id (·.addAll constant entries)).binds id x = true ↔
      x ∈ entries.map Prod.fst ∨ s.binds id x = true := by
  obtain ⟨scope, hscope⟩ := Option.isSome_iff_exists.mp (scope?_isSome_iff.mpr hid)
  rw [binds, binds, local?, local?, scope?_update, if_pos rfl, hscope]
  exact scope.isSome_find?_addAll x

namespace Eval

variable {scope : ScopeId} {constant : Bool} {pos : Position} {m : Machine}
  {entries : List (String × Value)}

theorem declareAll_append (entries entries' : List (String × Value)) :
    declareAll scope constant pos (entries ++ entries') =
      declareAll scope constant pos entries >>= fun _ =>
        declareAll scope constant pos entries' := by
  induction entries with
  | nil => rfl
  | cons entry entries ih =>
    rw [List.cons_append, declareAll, declareAll, ih, bind_assoc]

/-- Different names that the scope does not bind are all declared. -/
theorem declareAll_eq_done (hscope : scope < m.store.nextId)
    (hnodup : (entries.map Prod.fst).Nodup)
    (hfree : ∀ x ∈ entries.map Prod.fst, m.store.binds scope x = false) :
    declareAll scope constant pos entries m =
      .done () { m with store := m.store.update scope (·.addAll constant entries) } := by
  induction entries generalizing m with
  | nil =>
    have hsame : m.store.update scope (·.addAll constant []) = m.store := Store.update_id _ _
    rw [hsame]
    rfl
  | cons entry entries ih =>
    obtain ⟨x, v⟩ := entry
    obtain ⟨hx, hnodup⟩ := List.nodup_cons.mp hnodup
    rw [List.map_cons, List.forall_mem_cons] at hfree
    have hdeclare : m.store.declare scope x v constant =
        .ok (m.store.update scope (·.add x ⟨v, constant⟩)) :=
      Store.declare_eq_ok_iff.mpr ⟨hfree.1, rfl⟩
    obtain ⟨-, hnext, -, hlocals⟩ := Store.declare_eq_ok hscope hdeclare
    rw [declareAll, bind_apply, declare, hdeclare]
    show declareAll scope constant pos entries
      { m with store := m.store.update scope (·.add x ⟨v, constant⟩) } = _
    rw [ih (by rw [hnext]; exact hscope) hnodup ?_, Store.update_update]
    · rfl
    · intro y hy
      have hne : y ≠ x := fun h => hx (h ▸ hy)
      rw [Store.binds, hlocals, if_neg fun h => hne h.2]
      exact hfree.2 y hy

/-- A name that is declared a second time ends the declarations. -/
theorem declareAll_eq_failed {before after : List (String × Value)} {x : String} {v : Value}
    (hscope : scope < m.store.nextId) (hnodup : (before.map Prod.fst).Nodup)
    (hfree : ∀ y ∈ before.map Prod.fst, m.store.binds scope y = false)
    (hx : x ∈ before.map Prod.fst) :
    declareAll scope constant pos (before ++ (x, v) :: after) m =
      .failed ⟨.redeclared x, pos⟩
        { m with store := m.store.update scope (·.addAll constant before) } := by
  have hbound : (m.store.update scope (·.addAll constant before)).binds scope x = true :=
    (Store.binds_update_addAll hscope constant before x).mpr (Or.inl hx)
  rw [declareAll_append, bind_apply, declareAll_eq_done hscope hnodup hfree]
  simp only [declareAll, bind_apply, declare, Store.declare, if_pos hbound]

end Eval

/-! ## Calls that are refused -/

/-- The first name of a list that repeats an earlier one. -/
def FirstRepeat (xs : List String) (x : String) : Prop :=
  ∃ before after, xs = before ++ x :: after ∧ before.Nodup ∧ x ∈ before

theorem FirstRepeat.not_nodup {xs : List String} {x : String} (h : FirstRepeat xs x) :
    ¬ xs.Nodup := by
  obtain ⟨before, after, rfl, -, hx⟩ := h
  intro hnodup
  exact (List.nodup_append.mp hnodup).2.2 x hx x List.mem_cons_self rfl

/-- Names that are not all different have a first one that repeats an earlier one: it is found by
reading on after names that are all different. -/
theorem exists_firstRepeat {before xs : List String} (hbefore : before.Nodup)
    (h : ¬ (before ++ xs).Nodup) : ∃ x, FirstRepeat (before ++ xs) x := by
  induction xs generalizing before with
  | nil =>
    rw [List.append_nil] at h
    exact absurd hbefore h
  | cons y ys ih =>
    by_cases hy : y ∈ before
    · exact ⟨y, before, ys, rfl, hbefore, hy⟩
    · have hlonger : (before ++ [y]).Nodup := by
        refine List.nodup_append.mpr ⟨hbefore, by simp, fun a ha b hb => ?_⟩
        rw [List.mem_singleton.mp hb]
        exact fun hab => hy (hab ▸ ha)
      rw [List.append_cons] at h ⊢
      exact ih hlonger h

/-- Why a call is refused, from the check that is made first to the one that is made last: the number
of arguments, the depth, and the parameters, which must be different. -/
inductive Function.Refuses (limit depth : Nat) (f : Function) (arguments : List Value)
    (pos : Position) : RuntimeError → Prop
  | arity : arguments.length ≠ f.params.length →
      Refuses limit depth f arguments pos
        ⟨.arityMismatch f.name f.params.length arguments.length, pos⟩
  | depth : arguments.length = f.params.length → limit ≤ depth →
      Refuses limit depth f arguments pos ⟨.depthExceeded limit, pos⟩
  | repeated {x : String} : arguments.length = f.params.length → depth < limit →
      FirstRepeat f.params x → Refuses limit depth f arguments pos ⟨.redeclared x, pos⟩

/-- Nothing that was there before has changed. -/
structure Machine.Untouched (m m' : Machine) : Prop where
  scopes : ∀ id s, m.store.scope? id = some s → m'.store.scope? id = some s
  sink : m'.sink = m.sink
  depth : m'.depth = m.depth

/-- The machine on which the body of a function starts, one level deeper: there is one more scope,
below the closure of the function, which binds each parameter to the argument at the same place. -/
structure Function.Entered (f : Function) (arguments : List Value) (m : Machine) (scope : ScopeId)
    (m' : Machine) : Prop where
  fresh : m.store.scope? scope = none
  parent : m'.store.parent? scope = some f.closure
  bound : ∀ x b, m'.store.local? scope x = some b ↔
    (∃ i : Nat, f.params[i]? = some x ∧ arguments[i]? = some b.value) ∧ b.constant = false
  others : ∀ id, id ≠ scope → m'.store.scope? id = m.store.scope? id
  sink : m'.sink = m.sink
  depth : m'.depth = m.depth + 1

/-! ## What a call starts -/

section Call

variable {limit fuel : Nat} {f : Function} {arguments : List Value} {pos : Position} {m : Machine}

/-- A call with the right number of arguments makes the scope and then runs the body. -/
theorem callFunction_entry (harity : arguments.length = f.params.length) :
    callFunction limit (fuel + 1) f arguments pos =
      f.entry limit arguments pos >>= fun scope =>
        Eval.deeper (evalBlock limit fuel scope f.body .nil) := by
  rw [callFunction, if_pos harity, Function.entry]
  simp only [Eval.bind_assoc]
  rfl

/-- A call starts the body of its function once the scope is made, and nothing else. -/
theorem Activation.starts_call_iff {b : Activation} :
    Activation.Starts limit ⟨fuel + 1, .call f arguments pos, m⟩ b ↔
      arguments.length = f.params.length ∧
        ∃ scope m₁, f.entry limit arguments pos m = .done scope m₁ ∧
          b = ⟨fuel, .block scope f.body .nil, { m₁ with depth := m₁.depth + 1 }⟩ := by
  constructor
  · rintro ⟨hstarts⟩
    rw [Task.plan] at hstarts
    by_cases harity : arguments.length = f.params.length
    · rw [if_pos harity] at hstarts
      cases hstarts with
      | body hentry => exact ⟨harity, _, _, hentry, rfl⟩
      | afterBody _ _ hnext => cases hnext
    · rw [if_neg harity] at hstarts
      cases hstarts
  · rintro ⟨harity, scope, m₁, hentry, rfl⟩
    apply Starts.of_plan
    rw [Task.plan, if_pos harity]
    exact .body hentry

/-- A limit that leaves no level refuses the call before a scope is made. -/
theorem Function.entry_of_full (hfull : limit ≤ m.depth) :
    f.entry limit arguments pos m =
      .failed ⟨.depthExceeded limit, pos⟩ { m with deepest := max m.deepest (m.depth + 1) } := by
  rw [Function.entry, Eval.bind_apply, Eval.claimDepth, if_neg (Nat.not_lt_of_le hfull)]

/-- With a level free, the parameters are declared in a new scope below the closure. -/
theorem Function.entry_of_free (hfree : m.depth < limit) :
    f.entry limit arguments pos m =
      (Eval.declareAll m.store.nextId false pos (f.params.zip arguments) >>=
          fun _ => pure m.store.nextId)
        { m with
          store := m.store.push (some f.closure), deepest := max m.deepest (m.depth + 1) } := by
  rw [Function.entry, Eval.bind_apply, Eval.claimDepth, if_pos hfree]
  rfl

theorem Store.binds_push_nextId (s : Store) (parent : Option ScopeId) (x : String) :
    (s.push parent).binds s.nextId x = false := by
  rw [binds, local?_push, local?, scope?_nextId]
  rfl

/-- A call that makes a scope and changes nothing else leaves everything before untouched. -/
theorem Machine.untouched_push (m : Machine) (parent : Option ScopeId) (g : Scope → Scope)
    (deepest : Nat) :
    m.Untouched { m with store := (m.store.push parent).update m.store.nextId g, deepest } where
  scopes id s hs := by
    have hid : id < m.store.nextId := Store.scope?_isSome_iff.mp (by rw [hs]; rfl)
    rw [Store.scope?_update, if_neg (Nat.ne_of_gt hid), Store.scope?_push,
      if_neg (Nat.ne_of_lt hid), hs]
  sink := rfl
  depth := rfl

theorem Function.entry_of_repeat {x : String} (harity : arguments.length = f.params.length)
    (hfree : m.depth < limit) (hrepeat : FirstRepeat f.params x) :
    ∃ m', f.entry limit arguments pos m = .failed ⟨.redeclared x, pos⟩ m' ∧ m.Untouched m' := by
  obtain ⟨before, after, hsplit, hnodup, hx⟩ := hrepeat
  rw [← List.map_fst_zip (Nat.le_of_eq harity.symm)] at hsplit
  obtain ⟨entries, rest, hentries, rfl, hrest⟩ := List.map_eq_append_iff.mp hsplit
  obtain ⟨⟨y, v⟩, rest, rfl, rfl, -⟩ := List.map_eq_cons_iff.mp hrest
  rw [entry_of_free hfree, hentries, Eval.bind_apply,
    Eval.declareAll_eq_failed _ hnodup (fun _ _ => Store.binds_push_nextId _ _ _) hx]
  · exact ⟨_, rfl, m.untouched_push _ _ _⟩
  · rw [Store.nextId_push]
    exact Nat.lt_succ_self _

/-- Parameters that are all different are bound to the arguments in a new scope. -/
theorem Function.entry_of_nodup (harity : arguments.length = f.params.length)
    (hfree : m.depth < limit) (hnodup : f.params.Nodup) :
    ∃ scope m₁, f.entry limit arguments pos m = .done scope m₁ ∧
      f.Entered arguments m scope { m₁ with depth := m₁.depth + 1 } := by
  rw [← List.map_fst_zip (Nat.le_of_eq harity.symm)] at hnodup
  have hnew : m.store.nextId < (m.store.push (some f.closure)).nextId := by
    rw [Store.nextId_push]
    exact Nat.lt_succ_self _
  rw [entry_of_free hfree, Eval.bind_apply,
    Eval.declareAll_eq_done hnew hnodup fun _ _ => Store.binds_push_nextId _ _ _]
  refine ⟨_, _, rfl, Store.scope?_nextId _, ?_, fun x b => ?_, fun id hid => ?_, rfl, rfl⟩
  · rw [Store.parent?_update fun s => s.parent_addAll, Store.parent?_push, if_pos rfl]
  · -- the new scope is empty before the parameters are declared
    have hempty : (m.store.push (some f.closure)).scope? m.store.nextId = some ⟨[], f.closure⟩ := by
      rw [Store.scope?_push, if_pos rfl]
    rw [Store.local?, Store.scope?_update, if_pos rfl, hempty]
    show Scope.find? (Scope.addAll ⟨[], f.closure⟩ false (f.params.zip arguments)) x = some b ↔ _
    rw [Scope.find?_addAll hnodup, List.mem_iff_getElem?]
    simp [List.getElem?_zip_eq_some, Scope.find?]
  · rw [Store.scope?_update, if_neg (Ne.symm hid), Store.scope?_push, if_neg hid]

/-- A call whose scope cannot be made fails and does not start the body. -/
theorem Function.fails_of_entry {e : RuntimeError} {m' : Machine}
    (harity : arguments.length = f.params.length)
    (hentry : f.entry limit arguments pos m = .failed e m') (fuel : Nat) :
    callFunction limit (fuel + 1) f arguments pos m = .failed e m' ∧
      ∀ b, ¬ Activation.Starts limit ⟨fuel + 1, .call f arguments pos, m⟩ b := by
  refine ⟨?_, fun b hb => ?_⟩
  · rw [callFunction_entry harity, Eval.bind_apply, hentry]
  · obtain ⟨-, scope, m₁, hdone, -⟩ := Activation.starts_call_iff.mp hb
    rw [hentry] at hdone
    cases hdone

theorem Function.Refuses.fails {e : RuntimeError} (h : f.Refuses limit m.depth arguments pos e)
    (fuel : Nat) :
    ∃ m', callFunction limit (fuel + 1) f arguments pos m = .failed e m' ∧ m.Untouched m' ∧
      ∀ b, ¬ Activation.Starts limit ⟨fuel + 1, .call f arguments pos, m⟩ b := by
  cases h with
  | arity harity =>
    refine ⟨m, ?_, ⟨fun _ _ hs => hs, rfl, rfl⟩, fun b hb => ?_⟩
    · rw [callFunction, if_neg harity]
      rfl
    · exact harity (Activation.starts_call_iff.mp hb).1
  | depth harity hfull =>
    obtain ⟨hfails, hnothing⟩ := fails_of_entry harity (entry_of_full hfull) fuel
    exact ⟨_, hfails, ⟨fun _ _ hs => hs, rfl, rfl⟩, hnothing⟩
  | repeated harity hfree hrepeat =>
    obtain ⟨m', hentry, huntouched⟩ := entry_of_repeat harity hfree hrepeat
    obtain ⟨hfails, hnothing⟩ := fails_of_entry harity hentry fuel
    exact ⟨m', hfails, huntouched, hnothing⟩

/-- A call that is not refused runs the body, one level deeper, on the machine that it has made, and
starts nothing else. -/
theorem Function.enters (h : ∀ e, ¬ f.Refuses limit m.depth arguments pos e) (fuel : Nat) :
    ∃ scope m', f.Entered arguments m scope m' ∧
      (∀ b, Activation.Starts limit ⟨fuel + 1, .call f arguments pos, m⟩ b ↔
        b = ⟨fuel, .block scope f.body .nil, m'⟩) ∧
      callFunction limit (fuel + 1) f arguments pos m =
        (evalBlock limit fuel scope f.body .nil m').mapMachine
          fun m => { m with depth := m.depth - 1 } := by
  have harity : arguments.length = f.params.length :=
    Decidable.byContradiction fun harity => h _ (.arity harity)
  have hfree : m.depth < limit :=
    Nat.lt_of_not_le fun hfull => h _ (.depth harity hfull)
  have hnodup : f.params.Nodup := by
    refine Decidable.byContradiction fun hrepeats => ?_
    obtain ⟨x, hx⟩ := exists_firstRepeat List.nodup_nil hrepeats
    exact h _ (.repeated harity hfree hx)
  obtain ⟨scope, m₁, hentry, hentered⟩ := entry_of_nodup harity hfree hnodup
  refine ⟨scope, _, hentered, fun b => ?_, ?_⟩
  · rw [Activation.starts_call_iff, hentry]
    constructor
    · rintro ⟨-, scope', m₂, hdone, rfl⟩
      cases hdone
      rfl
    · rintro rfl
      exact ⟨harity, scope, m₁, rfl, rfl⟩
  · rw [callFunction_entry harity, Eval.bind_apply, hentry]
    exact Eval.deeper_apply _ _

end Call

/-- How a call enters a function. It fails before the body starts exactly if it is refused, with the
error of the first check that refuses it, and then everything before is untouched. Otherwise it
starts the body, and only that, in a new scope that binds the parameters, one level deeper, and ends
as the body does. -/
theorem call_entry (limit fuel : Nat) (f : Function) (arguments : List Value) (pos : Position)
    (m : Machine) :
    (∀ e, f.Refuses limit m.depth arguments pos e ↔
        ∃ m', callFunction limit (fuel + 1) f arguments pos m = .failed e m' ∧
          ∀ b, ¬ Activation.Starts limit ⟨fuel + 1, .call f arguments pos, m⟩ b) ∧
      (∀ e m', f.Refuses limit m.depth arguments pos e →
        callFunction limit (fuel + 1) f arguments pos m = .failed e m' → m.Untouched m') ∧
      ((∀ e, ¬ f.Refuses limit m.depth arguments pos e) →
        ∃ scope m', f.Entered arguments m scope m' ∧
          (∀ b, Activation.Starts limit ⟨fuel + 1, .call f arguments pos, m⟩ b ↔
            b = ⟨fuel, .block scope f.body .nil, m'⟩) ∧
          callFunction limit (fuel + 1) f arguments pos m =
            (evalBlock limit fuel scope f.body .nil m').mapMachine
              fun m => { m with depth := m.depth - 1 }) := by
  refine ⟨fun e => ⟨fun h => ?_, ?_⟩, fun e m' h hfailed => ?_, fun h => Function.enters h fuel⟩
  · obtain ⟨m', hfails, -, hnothing⟩ := h.fails fuel
    exact ⟨m', hfails, hnothing⟩
  · rintro ⟨m', hfailed, hnothing⟩
    by_cases hrefused : ∃ e', f.Refuses limit m.depth arguments pos e'
    · obtain ⟨e', h⟩ := hrefused
      obtain ⟨m'', hfails, -⟩ := h.fails fuel
      rw [hfailed] at hfails
      cases hfails
      exact h
    · -- without a refusal the body would have started
      obtain ⟨scope, m₁, -, hstarts, -⟩ := Function.enters (not_exists.mp hrefused) fuel
      exact absurd ((hstarts _).mpr rfl) (hnothing _)
  · obtain ⟨m'', hfails, huntouched, -⟩ := h.fails fuel
    rw [hfailed] at hfails
    cases hfails
    exact huntouched

/-- A machine with one scope, which is empty. -/
def entryMachine : Machine where
  store := ⟨#[⟨[], none⟩]⟩
  sink := .fresh .none
  depth := 0
  deepest := 0

/-- A function without statements, with the given parameters. -/
def entryFunction (params : List String) : Function := ⟨"f", params, [], 0⟩

/-- With two parameters of one name, a call is refused for the second of them; without a level left
it is refused for that first. With different parameters the body starts. -/
theorem entryFunction_entry :
    (∃ m', callFunction 1 1 (entryFunction ["x", "y", "y", "x"]) [.nil, .nil, .nil, .nil] .nowhere
        entryMachine = .failed ⟨.redeclared "y", .nowhere⟩ m' ∧ entryMachine.Untouched m') ∧
      (∃ m', callFunction 0 1 (entryFunction ["x", "x"]) [.nil, .nil] .nowhere entryMachine =
        .failed ⟨.depthExceeded 0, .nowhere⟩ m' ∧ entryMachine.Untouched m') ∧
      (∀ e, ¬ (entryFunction ["x", "y"]).Refuses 1 0 [.bool true, .nil] .nowhere e) ∧
      ∃ scope m', (entryFunction ["x", "y"]).Entered [.bool true, .nil] entryMachine scope m' ∧
        Activation.Starts 1
          ⟨1, .call (entryFunction ["x", "y"]) [.bool true, .nil] .nowhere, entryMachine⟩
          ⟨0, .block scope [] .nil, m'⟩ := by
  have hrepeated : (entryFunction ["x", "y", "y", "x"]).Refuses 1 entryMachine.depth
      [.nil, .nil, .nil, .nil] .nowhere ⟨.redeclared "y", .nowhere⟩ :=
    .repeated rfl Nat.zero_lt_one ⟨["x", "y"], ["x"], rfl, by decide, by decide⟩
  have hfull : (entryFunction ["x", "x"]).Refuses 0 entryMachine.depth [.nil, .nil] .nowhere
      ⟨.depthExceeded 0, .nowhere⟩ :=
    .depth rfl (Nat.le_refl 0)
  have hfree (e : RuntimeError) :
      ¬ (entryFunction ["x", "y"]).Refuses 1 0 [.bool true, .nil] .nowhere e := by
    intro h
    cases h with
    | arity harity => exact harity rfl
    | depth _ hdepth => exact absurd hdepth (by decide)
    | repeated _ _ hrepeat => exact hrepeat.not_nodup (by decide)
  refine ⟨?_, ?_, hfree, ?_⟩
  · obtain ⟨hiff, huntouched, -⟩ := call_entry 1 0 (entryFunction ["x", "y", "y", "x"])
      [.nil, .nil, .nil, .nil] .nowhere entryMachine
    obtain ⟨m', hfailed, -⟩ := (hiff _).mp hrepeated
    exact ⟨m', hfailed, huntouched _ m' hrepeated hfailed⟩
  · obtain ⟨hiff, huntouched, -⟩ := call_entry 0 0 (entryFunction ["x", "x"]) [.nil, .nil] .nowhere
      entryMachine
    obtain ⟨m', hfailed, -⟩ := (hiff _).mp hfull
    exact ⟨m', hfailed, huntouched _ m' hfull hfailed⟩
  · obtain ⟨-, -, henters⟩ := call_entry 1 0 (entryFunction ["x", "y"]) [.bool true, .nil] .nowhere
      entryMachine
    obtain ⟨scope, m', hentered, hstarts, -⟩ := henters hfree
    exact ⟨scope, m', hentered, (hstarts _).mpr rfl⟩

end Scriptlet
