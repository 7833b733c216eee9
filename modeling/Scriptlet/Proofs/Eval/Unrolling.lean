import Scriptlet.Proofs.Eval.Simulation
import Scriptlet.Proofs.Store

/-! # Loops and their passes

A loop opens no scope, so its passes are like statements of the block that it stands in: a counted
loop ends as the block does that has its body as many times as the loop counts. A conditional loop
that ends well has run its body some number of times (`Passes`). It ends as the counted loop does
whose body evaluates the condition first, and then evaluates the condition once more
(`loops_unrolled`).

Both compare how evaluations end and not runs with the same fuel, since a loop spends fuel on its
passes that a block does not.
-/

namespace Scriptlet

open Outcome

variable {limit count : Nat} {scope : ScopeId} {m : Machine} {o : Outcome RuntimeError Value}

/-! ## Blocks and counted loops -/

section Blocks

variable {s : Stmt} {ss body : List Stmt} {last : Value}

theorem ends_evalBlock_nil : Ends (evalBlock limit · scope [] last) m o ↔ o = .done last m := by
  rw [← ends_pure]
  exact ends_of_step fun fuel => by rw [evalBlock]

theorem ends_evalBlock_cons :
    Ends (evalBlock limit · scope (s :: ss) last) m o ↔
      InTurn (Ends (evalStmt limit · scope s) m)
        (fun v m₁ => Ends (evalBlock limit · scope ss v) m₁) o := by
  rw [← ends_bind (growing_evalStmt limit scope s) (growing_evalBlock limit scope ss)]
  exact ends_of_step fun fuel => by rw [evalBlock]

theorem ends_evalLoop_zero : Ends (evalLoop limit · scope body 0 last) m o ↔ o = .done last m := by
  rw [← ends_pure]
  exact ends_of_step fun fuel => by rw [evalLoop]

theorem ends_evalLoop_succ :
    Ends (evalLoop limit · scope body (count + 1) last) m o ↔
      InTurn (Ends (evalBlock limit · scope body .nil) m)
        (fun v m₁ => Ends (evalLoop limit · scope body count v) m₁) o := by
  rw [← ends_bind (growing_evalBlock limit scope body .nil)
    (growing_evalLoop limit scope body count)]
  exact ends_of_step fun fuel => by rw [evalLoop]

/-- A block that is made of two ends as they do in turn. -/
theorem ends_evalBlock_append {ss' : List Stmt} :
    Ends (evalBlock limit · scope (ss ++ ss') last) m o ↔
      InTurn (Ends (evalBlock limit · scope ss last) m)
        (fun v m₁ => Ends (evalBlock limit · scope ss' v) m₁) o := by
  induction ss generalizing last m with
  | nil =>
    rw [inTurn_congr (fun _ => ends_evalBlock_nil) fun _ _ _ => Iff.rfl, inTurn_done,
      List.nil_append]
  | cons s ss ih =>
    rw [inTurn_congr (fun _ => ends_evalBlock_cons) fun _ _ _ => Iff.rfl, inTurn_assoc,
      List.cons_append, ends_evalBlock_cons]
    exact inTurn_congr (fun _ => Iff.rfl) fun _ _ _ => ih

/-- The value before a block matters only if the block is empty. -/
theorem ends_evalBlock_congr {last' : Value} (h : ss = [] → last = last') :
    Ends (evalBlock limit · scope ss last) m o ↔ Ends (evalBlock limit · scope ss last') m o := by
  cases ss with
  | nil => rw [h rfl]
  | cons s ss => rw [ends_evalBlock_cons, ends_evalBlock_cons]

/-- A counted loop ends as its body does when it is repeated. An empty body gives nil, so the value
before the loop is to be nil in that case. -/
theorem ends_evalLoop_iff (hlast : body = [] → last = .nil) :
    Ends (evalLoop limit · scope body count last) m o ↔
      Ends (evalBlock limit · scope (List.replicate count body).flatten last) m o := by
  induction count generalizing last m with
  | zero => rw [ends_evalLoop_zero, List.replicate_zero, List.flatten_nil, ends_evalBlock_nil]
  | succ count ih =>
    rw [ends_evalLoop_succ, List.replicate_succ, List.flatten_cons, ends_evalBlock_append]
    refine inTurn_congr (fun _ => ends_evalBlock_congr fun hbody => (hlast hbody).symm)
      fun v m₁ hv => ih ?_
    rintro rfl
    cases ends_evalBlock_nil.mp hv
    exact hlast rfl

end Blocks

/-! ## Conditional loops -/

/-- A conditional loop runs its body a number of times, each time after its condition was true, and
ends when the condition has another value. The two values are that of the pass before and that of
the last pass. -/
inductive Passes (limit : Nat) (scope : ScopeId) (condition : Expr) (body : List Stmt) :
    Nat → Value → Machine → Value → Machine → Prop
  | stop {last v : Value} {m m' : Machine} :
      Ends (evalExpr limit · scope condition) m (.done v m') → v ≠ .bool true →
      Passes limit scope condition body 0 last m last m'
  | pass {k : Nat} {last v u : Value} {m m₁ m₂ m' : Machine} :
      Ends (evalExpr limit · scope condition) m (.done (.bool true) m₁) →
      Ends (evalBlock limit · scope body .nil) m₁ (.done v m₂) →
      Passes limit scope condition body k v m₂ u m' →
      Passes limit scope condition body (k + 1) last m u m'

section Conditional

variable {fuel k : Nat} {condition : Expr} {body : List Stmt} {last u v : Value} {m₁ m' : Machine}

theorem evalWhile_of_true
    (h : evalExpr limit fuel scope condition m = .done (.bool true) m₁) :
    evalWhile limit (fuel + 1) scope condition body last m =
      (evalBlock limit fuel scope body .nil >>=
        fun v => evalWhile limit fuel scope condition body v) m₁ := by
  rw [evalWhile, Eval.bind_apply, h]

theorem evalWhile_of_not_true (h : evalExpr limit fuel scope condition m = .done v m₁)
    (hv : v ≠ .bool true) :
    evalWhile limit (fuel + 1) scope condition body last m = .done last m₁ := by
  rw [evalWhile, Eval.bind_apply, h]
  cases v with
  | bool b =>
    cases b with
    | true => exact absurd rfl hv
    | false => rfl
  | _ => rfl

theorem exists_passes (h : evalWhile limit fuel scope condition body last m = .done u m') :
    ∃ k, Passes limit scope condition body k last m u m' := by
  induction fuel generalizing last m with
  | zero =>
    rw [evalWhile] at h
    cases h
  | succ fuel ih =>
    have htest := h
    rw [evalWhile] at htest
    obtain ⟨v, m₁, hcondition, -⟩ := Eval.bind_eq_done htest
    have htested : Ends (evalExpr limit · scope condition) m (.done v m₁) :=
      (growing_evalExpr limit scope condition).ends_of_done hcondition
    by_cases hv : v = .bool true
    · subst hv
      rw [evalWhile_of_true hcondition] at h
      obtain ⟨w, m₂, hbody, hrest⟩ := Eval.bind_eq_done h
      obtain ⟨k, hpasses⟩ := ih hrest
      have hran : Ends (evalBlock limit · scope body .nil) m₁ (.done w m₂) :=
        (growing_evalBlock limit scope body .nil).ends_of_done hbody
      exact ⟨k + 1, .pass htested hran hpasses⟩
    · rw [evalWhile_of_not_true hcondition hv] at h
      cases h
      exact ⟨0, .stop htested hv⟩

theorem Passes.ends (h : Passes limit scope condition body k last m u m') :
    Ends (evalWhile limit · scope condition body last) m (.done u m') := by
  induction h with
  | stop htested hv =>
    obtain ⟨-, n, hn⟩ := htested
    exact (growing_evalWhile limit scope condition body _).ends_of_done
      (evalWhile_of_not_true (hn n (Nat.le_refl n)) hv)
  | @pass k last v u m m₁ m₂ m' htested hran _ ih =>
    obtain ⟨-, n, hn⟩ := htested
    obtain ⟨-, n', hn'⟩ := hran
    obtain ⟨-, n'', hn''⟩ := ih
    obtain ⟨fuel, hfuel⟩ : ∃ fuel, max n (max n' n'') = fuel := ⟨_, rfl⟩
    have hbody : evalBlock limit fuel scope body .nil m₁ = .done v m₂ := hn' fuel (by omega)
    have hstep : evalWhile limit (fuel + 1) scope condition body last m = .done u m' := by
      rw [evalWhile_of_true (hn fuel (by omega)), Eval.bind_apply, hbody]
      exact hn'' fuel (by omega)
    exact (growing_evalWhile limit scope condition body last).ends_of_done hstep

/-- A conditional loop that ends well has run its body some number of times. -/
theorem ends_evalWhile_iff :
    Ends (evalWhile limit · scope condition body last) m (.done u m') ↔
      ∃ k, Passes limit scope condition body k last m u m' := by
  constructor
  · rintro ⟨-, n, hn⟩
    exact exists_passes (hn n (Nat.le_refl n))
  · rintro ⟨k, hpasses⟩
    exact hpasses.ends

/-- The number of passes is one only. -/
theorem Passes.unique {k' : Nat} {last' u' : Value} {m'' : Machine}
    (h : Passes limit scope condition body k last m u m')
    (h' : Passes limit scope condition body k' last' m u' m'') : k = k' := by
  induction h generalizing k' last' with
  | stop htested hv =>
    cases h' with
    | stop _ _ => rfl
    | pass htested' _ _ =>
      cases htested.unique htested'
      exact absurd rfl hv
  | pass htested hran _ ih =>
    cases h' with
    | stop htested' hv =>
      cases htested.unique htested'
      exact absurd rfl hv
    | pass htested' hran' hrest =>
      cases htested.unique htested'
      cases hran.unique hran'
      rw [ih hrest]

/-- The passes of a conditional loop as those of a counted one: each evaluates the condition before
the body, and after the last one the condition is evaluated once more. -/
theorem Passes.unrolled (h : Passes limit scope condition body k last m u m') (hbody : body ≠ []) :
    ∃ v m₁, Ends (evalLoop limit · scope (.expr condition :: body) k last) m (.done u m₁) ∧
      Ends (evalExpr limit · scope condition) m₁ (.done v m') ∧ v ≠ .bool true := by
  induction h with
  | stop htested hv => exact ⟨_, _, ends_evalLoop_zero.mpr rfl, htested, hv⟩
  | @pass k last v u m m₁ m₂ m' htested hran _ ih =>
    obtain ⟨w, m₃, hloop, hlast⟩ := ih
    refine ⟨w, m₃, ends_evalLoop_succ.mpr (Or.inl ⟨v, m₂, ?_, hloop⟩), hlast⟩
    have hstmt : Ends (evalStmt limit · scope (.expr condition)) m (.done (.bool true) m₁) :=
      (ends_of_step fun fuel => by rw [evalStmt]).mpr htested
    refine ends_evalBlock_cons.mpr (Or.inl ⟨.bool true, m₁, hstmt, ?_⟩)
    exact (ends_evalBlock_congr fun hnil => absurd hnil hbody).mpr hran

end Conditional

/-- Loops end as their passes do in turn. A counted loop ends, with a value or with an error, as the
block does that has its body repeated. A conditional loop that ends well has run its body some
number of times. It ends as the counted loop with that number of passes over the condition and the
body does, and then the condition, which is not true by then. -/
theorem loops_unrolled (limit : Nat) (scope : ScopeId) (body : List Stmt) (m : Machine) :
    (∀ count pos o, Ends (evalStmt limit · scope (.loop count body pos)) m o ↔
        Ends (evalBlock limit · scope (List.replicate count body).flatten .nil) m o) ∧
      ∀ condition pos u m',
        (Ends (evalStmt limit · scope (.whileLoop condition body pos)) m (.done u m') ↔
          ∃ k, Passes limit scope condition body k .nil m u m') ∧
        ∀ k, Passes limit scope condition body k .nil m u m' →
          (∀ k', Passes limit scope condition body k' .nil m u m' → k' = k) ∧
          (body ≠ [] → ∀ pos', ∃ v m₁,
            Ends (evalStmt limit · scope (.loop k (.expr condition :: body) pos')) m (.done u m₁) ∧
            Ends (evalExpr limit · scope condition) m₁ (.done v m') ∧ v ≠ .bool true) := by
  have hcounted (count : Nat) (ss : List Stmt) (pos : Position) (o : Outcome RuntimeError Value) :
      Ends (evalStmt limit · scope (.loop count ss pos)) m o ↔
        Ends (evalLoop limit · scope ss count .nil) m o :=
    ends_of_step fun fuel => by rw [evalStmt]
  refine ⟨fun count pos o => ?_, fun condition pos u m' => ⟨?_, fun k h => ⟨?_, ?_⟩⟩⟩
  · exact (hcounted count body pos o).trans (ends_evalLoop_iff fun _ => rfl)
  · exact (ends_of_step fun fuel => by rw [evalStmt]).trans ends_evalWhile_iff
  · intro k' h'
    exact h'.unique h
  · intro hbody pos'
    obtain ⟨v, m₁, hloop, hlast⟩ := h.unrolled hbody
    exact ⟨v, m₁, (hcounted k _ pos' _).mpr hloop, hlast⟩

/-! ## Names that the scope itself binds -/

section Local

variable {x : String} {v : Value} {pos : Position}

/-- A name that the scope itself binds has the value that it is bound to there. -/
theorem evalExpr_of_local? {fuel : Nat} {constant : Bool}
    (hx : m.store.local? scope x = some ⟨v, constant⟩) :
    evalExpr limit (fuel + 1) scope (.identifier x pos) m = .done v m := by
  have hfind : m.store.find? scope x = some ⟨v, constant⟩ := by
    rw [Store.find?, Store.resolve?_of_binds (Store.binds_of_local? hx)]
    exact hx
  rw [evalExpr, Eval.lookup, Store.lookup, hfind]

/-- A variable that the scope itself binds is assigned there. -/
theorem assign_of_local? {u : Value} (hx : m.store.local? scope x = some ⟨u, false⟩) :
    Eval.assign scope x v pos m =
      .done v { m with store := m.store.update scope (·.setValue x v) } := by
  have hvariable : m.store.isConstant scope x = false := by
    rw [Store.isConstant, hx]
    rfl
  have hassign : m.store.assign scope x v = .ok (m.store.update scope (·.setValue x v)) :=
    Store.assign_eq_ok_iff.mpr
      ⟨scope, Store.resolve?_of_binds (Store.binds_of_local? hx), hvariable, rfl⟩
  rw [Eval.assign, hassign]

end Local

/-- A machine with two variables. -/
def relayMachine (a b : Bool) : Machine where
  store := ⟨#[⟨[("a", ⟨.bool a, false⟩), ("b", ⟨.bool b, false⟩)], none⟩]⟩
  sink := .fresh .none
  depth := 0
  deepest := 0

/-- Reads the first variable. -/
def relayCondition : Expr := .identifier "a" .nowhere

/-- Passes the second variable on to the first, and makes it false. -/
def relayBody : List Stmt :=
  [.expr (.assign (.identifier "a" .nowhere) (.identifier "b" .nowhere) .nowhere),
    .expr (.assign (.identifier "b" .nowhere) (.bool false .nowhere) .nowhere)]

theorem evalBlock_relayBody (limit fuel : Nat) (a b : Bool) :
    evalBlock limit (fuel + 5) 0 relayBody .nil (relayMachine a b) =
      .done (.bool false) (relayMachine b false) := by
  have hread : evalExpr limit (fuel + 2) 0 (.identifier "b" .nowhere) (relayMachine a b) =
      .done (.bool b) (relayMachine a b) := evalExpr_of_local? rfl
  have hpass : Eval.assign 0 "a" (.bool b) .nowhere (relayMachine a b) =
      .done (.bool b) (relayMachine b b) := assign_of_local? rfl
  have hclear : Eval.assign 0 "b" (.bool false) .nowhere (relayMachine b b) =
      .done (.bool false) (relayMachine b false) := assign_of_local? rfl
  rw [relayBody, evalBlock, Eval.bind_apply, evalStmt, evalExpr, Eval.bind_apply, hread]
  simp only [hpass]
  rw [evalBlock, Eval.bind_apply, evalStmt, evalExpr, evalExpr, Eval.bind_apply, Eval.pure_apply]
  simp only [hclear]
  rw [evalBlock, Eval.pure_apply]

/-- With both variables true, the loop runs its body twice. -/
theorem relay_unrolled :
    Passes 1 0 relayCondition relayBody 2 .nil (relayMachine true true) (.bool false)
        (relayMachine false false) ∧
      relayBody ≠ [] ∧ ∃ v m₁,
        Ends (evalStmt 1 · 0 (.loop 2 (.expr relayCondition :: relayBody) .nowhere))
          (relayMachine true true) (.done (.bool false) m₁) ∧
        Ends (evalExpr 1 · 0 relayCondition) m₁ (.done v (relayMachine false false)) ∧
        v ≠ .bool true := by
  have htested (a b : Bool) : Ends (evalExpr 1 · 0 relayCondition) (relayMachine a b)
      (.done (.bool a) (relayMachine a b)) := by
    have hread : evalExpr 1 1 0 relayCondition (relayMachine a b) =
        .done (.bool a) (relayMachine a b) := evalExpr_of_local? rfl
    exact (growing_evalExpr 1 0 _).ends_of_done hread
  have hran (a b : Bool) : Ends (evalBlock 1 · 0 relayBody .nil) (relayMachine a b)
      (.done (.bool false) (relayMachine b false)) :=
    (growing_evalBlock 1 0 _ _).ends_of_done (evalBlock_relayBody 1 1 a b)
  have hfalse : Value.bool false ≠ .bool true := by
    intro h
    cases h
  have hpasses : Passes 1 0 relayCondition relayBody 2 .nil (relayMachine true true)
      (.bool false) (relayMachine false false) :=
    .pass (htested true true) (hran true true) <|
      .pass (htested true false) (hran true false) (.stop (htested false false) hfalse)
  have hbody : relayBody ≠ [] := List.cons_ne_nil _ _
  obtain ⟨-, hunrolled⟩ :=
    (loops_unrolled 1 0 relayBody (relayMachine true true)).2 relayCondition .nowhere _ _
  exact ⟨hpasses, hbody, (hunrolled 2 hpasses).2 hbody .nowhere⟩

end Scriptlet
