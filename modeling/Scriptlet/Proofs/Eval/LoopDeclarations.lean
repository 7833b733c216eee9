import Scriptlet.Proofs.Eval.Scopes
import Scriptlet.Proofs.Eval.Unrolling

/-! # Declarations in loops

A loop runs its body in the scope that it stands in. Whatever else runs there or in the functions
that are called, a name that a scope binds stays bound (`Store.growth`). So a declaration among the
statements of the body succeeds only while its name is free, and after it the name is not
(`evalBlock_declared`). A second pass cannot succeed (`declared_at_most_once`).
-/

namespace Scriptlet

/-- Stores are only ever extended, whatever they hold. The world is the store itself. -/
def Store.growth : Invariant .all where
  World := Store
  Later := Extends
  store s s' := s' = s
  value _ _ := True
  scope _ _ := True
  later_refl := Extends.refl
  later_trans := Extends.trans
  value_later _ _ := trivial
  scope_later _ _ := trivial
  plain _ := trivial
  function := ⟨fun _ => ⟨trivial, trivial, fun _ _ => trivial⟩, fun _ => trivial⟩
  found _ _ _ _ := trivial
  push := by
    rintro _ s parent rfl -
    exact ⟨_, extends_push s parent, rfl, trivial⟩
  declare := by
    rintro _ s s' id x v constant rfl - - - h
    exact ⟨s', extends_declare h, rfl⟩
  assign := by
    rintro _ s s' id x v rfl - - - h
    exact ⟨s', extends_assign h, rfl⟩

/-- The name that a statement declares, if it is a declaration. -/
def Stmt.declared? : Stmt → Option String
  | .declare name _ _ _ | .function name _ _ _ => some name
  | _ => none

section Declarations

variable {limit fuel : Nat} {scope : ScopeId} {m m' : Machine} {s : Stmt} {ss : List Stmt}
  {x : String} {v : Value}

theorem Store.extends_of_done {α : Type} {y : Eval α} {post : Store → α → Prop} {a : α}
    (hy : Eval.Keeps growth m.store y post) (h : y m = .done a m') : m.store.Extends m'.store := by
  have hends : (y m).EndsIn m' := by
    rw [h]
    rfl
  obtain ⟨_, hextends, rfl⟩ := hy.store_of_endsIn rfl hends
  exact hextends

theorem evalExpr_extends {e : Expr} (h : evalExpr limit fuel scope e m = .done v m') :
    m.store.Extends m'.store :=
  Store.extends_of_done ((Eval.keepsWith Store.growth limit fuel).expr trivial trivial) h

theorem evalStmt_extends (h : evalStmt limit fuel scope s m = .done v m') :
    m.store.Extends m'.store :=
  Store.extends_of_done ((Eval.keepsWith Store.growth limit fuel).stmt trivial trivial) h

theorem evalBlock_extends {last : Value} (h : evalBlock limit fuel scope ss last m = .done v m') :
    m.store.Extends m'.store :=
  Store.extends_of_done
    ((Eval.keepsWith Store.growth limit fuel).block trivial (fun _ _ => trivial) trivial) h

/-- A declaration ends with binding its name, after the store has been extended. -/
theorem exists_declare (hx : s.declared? = some x)
    (h : evalStmt limit fuel scope s m = .done v m') :
    ∃ m₁ u constant pos, m.store.Extends m₁.store ∧
      Eval.declare scope x u constant pos m₁ = .done v m' := by
  cases fuel with
  | zero =>
    rw [evalStmt] at h
    cases h
  | succ fuel =>
    cases s with
    | declare name value constant pos =>
      obtain rfl : name = x := Option.some.inj hx
      cases value with
      | none =>
        rw [evalStmt] at h
        exact ⟨m, _, _, _, .refl _, h⟩
      | some value =>
        rw [evalStmt] at h
        obtain ⟨u, m₁, hvalue, hdeclare⟩ := Eval.bind_eq_done h
        exact ⟨m₁, _, _, _, evalExpr_extends hvalue, hdeclare⟩
    | function name params body pos =>
      obtain rfl : name = x := Option.some.inj hx
      rw [evalStmt] at h
      exact ⟨m, _, _, _, .refl _, h⟩
    | loop _ _ _ | whileLoop _ _ _ | expr _ => cases hx

/-- The name of a declaration is free before it and bound after it. -/
theorem evalStmt_declared (hscope : scope < m.store.nextId) (hx : s.declared? = some x)
    (h : evalStmt limit fuel scope s m = .done v m') :
    m.store.binds scope x = false ∧ m'.store.binds scope x = true := by
  obtain ⟨m₁, u, constant, pos, hextends, hdeclare⟩ := exists_declare hx h
  obtain ⟨s', hok, rfl⟩ := Store.declare_eq_done hdeclare
  have hscope₁ : scope < m₁.store.nextId := Nat.lt_of_lt_of_le hscope hextends.nextId_le
  obtain ⟨hfree, -, -, hlocals⟩ := Store.declare_eq_ok hscope₁ hok
  constructor
  · rw [Bool.eq_false_iff]
    intro hbound
    have hbound₁ := hextends.binds hbound
    rw [Store.binds, hfree] at hbound₁
    cases hbound₁
  · rw [Store.binds, hlocals, if_pos ⟨rfl, rfl⟩]
    rfl

/-- The name of a declaration in a block is free before the block and bound after it. -/
theorem evalBlock_declared {last : Value} (hscope : scope < m.store.nextId) (hs : s ∈ ss)
    (hx : s.declared? = some x) (h : evalBlock limit fuel scope ss last m = .done v m') :
    m.store.binds scope x = false ∧ m'.store.binds scope x = true := by
  induction ss generalizing fuel last m with
  | nil => exact absurd hs List.not_mem_nil
  | cons s' ss ih =>
    cases fuel with
    | zero =>
      rw [evalBlock] at h
      cases h
    | succ fuel =>
      rw [evalBlock] at h
      obtain ⟨u, m₁, hfirst, hrest⟩ := Eval.bind_eq_done h
      have hextends := evalStmt_extends hfirst
      rcases List.mem_cons.mp hs with rfl | hs
      · obtain ⟨hfree, hbound⟩ := evalStmt_declared hscope hx hfirst
        exact ⟨hfree, (evalBlock_extends hrest).binds hbound⟩
      · have hscope₁ := Nat.lt_of_lt_of_le hscope hextends.nextId_le
        obtain ⟨hfree, hbound⟩ := ih hscope₁ hs hrest
        -- a name that is free after the first statement was free before it
        refine ⟨Bool.eq_false_iff.mpr fun hbefore => ?_, hbound⟩
        rw [hextends.binds hbefore] at hfree
        cases hfree

/-- After a pass that has succeeded, whatever is done in between, there is no second one. -/
theorem no_second_pass {body : List Stmt} {m₁ m₂ m₃ : Machine} {u : Value}
    (hscope : scope < m.store.nextId) (hs : s ∈ body) (hx : s.declared? = some x)
    (hfirst : Ends (evalBlock limit · scope body .nil) m (.done u m₁))
    (hbetween : m₁.store.Extends m₂.store) :
    ¬ Ends (evalBlock limit · scope body .nil) m₂ (.done v m₃) := by
  rintro ⟨-, n, hn⟩
  obtain ⟨-, n', hn'⟩ := hfirst
  have hfirst : evalBlock limit n' scope body .nil m = .done u m₁ := hn' n' (Nat.le_refl n')
  have hsecond : evalBlock limit n scope body .nil m₂ = .done v m₃ := hn n (Nat.le_refl n)
  have hbound := hbetween.binds (evalBlock_declared hscope hs hx hfirst).2
  have hextends := (evalBlock_extends hfirst).trans hbetween
  have hfree :=
    (evalBlock_declared (Nat.lt_of_lt_of_le hscope hextends.nextId_le) hs hx hsecond).1
  rw [hbound] at hfree
  cases hfree

/-- A counted loop with two passes or more does not succeed. -/
theorem evalLoop_declared {body : List Stmt} {count : Nat} {last : Value}
    (hscope : scope < m.store.nextId) (hs : s ∈ body) (hx : s.declared? = some x) :
    ¬ Ends (evalLoop limit · scope body (count + 2) last) m (.done v m') := by
  rw [ends_evalLoop_succ]
  rintro (⟨u, m₁, hfirst, hrest⟩ | ⟨_, _, -, ⟨⟩⟩)
  rw [ends_evalLoop_succ] at hrest
  rcases hrest with ⟨w, m₂, hsecond, -⟩ | ⟨_, _, -, ⟨⟩⟩
  exact no_second_pass hscope hs hx hfirst (.refl _) hsecond

/-- A conditional loop that succeeds has had one pass at most. -/
theorem Passes.le_one {condition : Expr} {body : List Stmt} {k : Nat} {last : Value}
    (h : Passes limit scope condition body k last m v m') (hscope : scope < m.store.nextId)
    (hs : s ∈ body) (hx : s.declared? = some x) : k ≤ 1 := by
  have htest_extends {m m₁ : Machine} {u : Value}
      (htested : Ends (evalExpr limit · scope condition) m (.done u m₁)) :
      m.store.Extends m₁.store := by
    obtain ⟨-, n, hn⟩ := htested
    exact evalExpr_extends (hn n (Nat.le_refl n))
  cases h with
  | stop _ _ => omega
  | pass htested hfirst hrest =>
    cases hrest with
    | stop _ _ => omega
    | pass htested' hsecond _ =>
      have hscope₁ := Nat.lt_of_lt_of_le hscope (htest_extends htested).nextId_le
      exact absurd hsecond (no_second_pass hscope₁ hs hx hfirst (htest_extends htested'))

end Declarations

/-- Declarations in loops run at most once. If the statements of a body have a declaration among
them, a counted loop over it with two passes or more never succeeds, and a conditional loop that
succeeds has run the body once or not at all. -/
theorem declared_at_most_once {limit : Nat} {scope : ScopeId} {body : List Stmt} {s : Stmt}
    {x : String} {m : Machine} (hscope : scope < m.store.nextId) (hs : s ∈ body)
    (hx : s.declared? = some x) :
    (∀ fuel count pos v m', 2 ≤ count →
        evalStmt limit fuel scope (.loop count body pos) m ≠ .done v m') ∧
      ∀ condition pos v m',
        Ends (evalStmt limit · scope (.whileLoop condition body pos)) m (.done v m') →
        ∃ k, k ≤ 1 ∧ ∀ k', Passes limit scope condition body k' .nil m v m' ↔ k' = k := by
  constructor
  · intro fuel count pos v m' hcount hdone
    obtain ⟨count, rfl⟩ : ∃ n, count = n + 2 := ⟨count - 2, by omega⟩
    have hends : Ends (evalStmt limit · scope (.loop (count + 2) body pos)) m (.done v m') :=
      (growing_evalStmt limit scope _).ends_of_done hdone
    exact evalLoop_declared hscope hs hx
      ((ends_of_step fun fuel => by rw [evalStmt]).mp hends)
  · intro condition pos v m' hends
    obtain ⟨k, hpasses⟩ :=
      ends_evalWhile_iff.mp ((ends_of_step fun fuel => by rw [evalStmt]).mp hends)
    refine ⟨k, hpasses.le_one hscope hs hx, fun k' => ⟨fun h => h.unique hpasses, ?_⟩⟩
    rintro rfl
    exact hpasses

/-- Makes the first variable false, and declares a third one. -/
def declaringBody : List Stmt :=
  [.expr (.assign (.identifier "a" .nowhere) (.bool false .nowhere) .nowhere),
    .declare "c" none false .nowhere]

/-- The machine after one pass over the body. -/
def declaredMachine : Machine where
  store := ⟨#[⟨[("c", ⟨.nil, false⟩), ("a", ⟨.bool false, false⟩), ("b", ⟨.bool true, false⟩)],
    none⟩]⟩
  sink := .fresh .none
  depth := 0
  deepest := 0

theorem evalBlock_declaringBody (limit fuel : Nat) :
    evalBlock limit (fuel + 4) 0 declaringBody .nil (relayMachine true true) =
      .done .nil declaredMachine := by
  have hclear : Eval.assign 0 "a" (.bool false) .nowhere (relayMachine true true) =
      .done (.bool false) (relayMachine false true) := assign_of_local? rfl
  have hdeclare : Eval.declare 0 "c" .nil false .nowhere (relayMachine false true) =
      .done .nil declaredMachine := rfl
  rw [declaringBody, evalBlock, Eval.bind_apply, evalStmt, evalExpr, evalExpr, Eval.bind_apply,
    Eval.pure_apply]
  simp only [hclear]
  rw [evalBlock, Eval.bind_apply, evalStmt, hdeclare]
  simp only [evalBlock, Eval.pure_apply]

/-- The counted loop fails in its second pass. The conditional loop has no second pass, since the
first variable is false by then. -/
theorem declaringBody_once :
    0 < (relayMachine true true).store.nextId ∧
      (∃ s ∈ declaringBody, s.declared? = some "c") ∧
      (∀ fuel v m',
        evalStmt 1 fuel 0 (.loop 2 declaringBody .nowhere) (relayMachine true true) ≠ .done v m') ∧
      Ends (evalStmt 1 · 0 (.whileLoop relayCondition declaringBody .nowhere))
        (relayMachine true true) (.done .nil declaredMachine) ∧
      ∃ k, k ≤ 1 ∧ ∀ k', Passes 1 0 relayCondition declaringBody k' .nil
        (relayMachine true true) .nil declaredMachine ↔ k' = k := by
  have hscope : 0 < (relayMachine true true).store.nextId := Nat.zero_lt_one
  have hs : Stmt.declare "c" none false .nowhere ∈ declaringBody :=
    List.mem_cons_of_mem _ List.mem_cons_self
  have hends : Ends (evalStmt 1 · 0 (.whileLoop relayCondition declaringBody .nowhere))
      (relayMachine true true) (.done .nil declaredMachine) := by
    have hfirst : evalExpr 1 1 0 relayCondition (relayMachine true true) =
        .done (.bool true) (relayMachine true true) := evalExpr_of_local? rfl
    have hlast : evalExpr 1 1 0 relayCondition declaredMachine =
        .done (.bool false) declaredMachine := evalExpr_of_local? rfl
    have hfalse : Value.bool false ≠ .bool true := by
      intro h
      cases h
    have hpasses : Passes 1 0 relayCondition declaringBody 1 .nil (relayMachine true true) .nil
        declaredMachine :=
      .pass ((growing_evalExpr 1 0 _).ends_of_done hfirst)
        ((growing_evalBlock 1 0 _ _).ends_of_done (evalBlock_declaringBody 1 0))
        (.stop ((growing_evalExpr 1 0 _).ends_of_done hlast) hfalse)
    exact (ends_of_step fun fuel => by rw [evalStmt]).mpr hpasses.ends
  obtain ⟨hcounted, hconditional⟩ := @declared_at_most_once 1 0 declaringBody _ _ _ hscope hs rfl
  exact ⟨hscope, ⟨_, hs, rfl⟩, fun fuel v m' => hcounted fuel 2 _ v m' (Nat.le_refl 2), hends,
    hconditional _ _ _ _ hends⟩

end Scriptlet
