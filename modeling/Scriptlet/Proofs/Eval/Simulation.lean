import Scriptlet.Proofs.Eval.Outcome
import Scriptlet.Run

/-! # Comparing two runs

The evaluator is run twice on the same program, with limits and fuel that may differ. A relation
between evaluations that is kept by everything the evaluator is made of holds between the two runs
(`Simulation.program`). The first use is that more fuel does not change how a run ends.
-/

namespace Scriptlet

/-- A relation between evaluations that holds between the primitives of two runs, with one limit
each, and is kept when they are put together. A run without fuel is related to every run. -/
structure Simulation (R : {α : Type} → Eval α → Eval α → Prop) (limit limit' : Nat) : Prop where
  unfinished : ∀ {α : Type} (y : Eval α), R Eval.unfinished y
  pure : ∀ {α : Type} (a : α), R (pure a) (pure a)
  bind : ∀ {α β : Type} {x y : Eval α} {f g : α → Eval β},
    R x y → (∀ a, R (f a) (g a)) → R (x >>= f) (y >>= g)
  deeper : ∀ {α : Type} {x y : Eval α}, R x y → R (Eval.deeper x) (Eval.deeper y)
  fail : ∀ {α : Type} (cause : RuntimeError.Cause) (pos : Position),
    R (Eval.fail cause pos : Eval α) (Eval.fail cause pos)
  lookup : ∀ scope name pos, R (Eval.lookup scope name pos) (Eval.lookup scope name pos)
  declare : ∀ scope name v constant pos,
    R (Eval.declare scope name v constant pos) (Eval.declare scope name v constant pos)
  assign : ∀ scope name v pos, R (Eval.assign scope name v pos) (Eval.assign scope name v pos)
  newScope : ∀ parent, R (Eval.newScope parent) (Eval.newScope parent)
  print : ∀ text pos, R (Eval.print text pos) (Eval.print text pos)
  claimDepth : ∀ pos, R (Eval.claimDepth limit pos) (Eval.claimDepth limit' pos)

/-- The two runs of the evaluator, with some fuel each, are related. -/
structure Related (R : {α : Type} → Eval α → Eval α → Prop) (limit limit' fuel fuel' : Nat) :
    Prop where
  expr : ∀ scope e, R (evalExpr limit fuel scope e) (evalExpr limit' fuel' scope e)
  arguments : ∀ scope es,
    R (evalArguments limit fuel scope es) (evalArguments limit' fuel' scope es)
  stmt : ∀ scope s, R (evalStmt limit fuel scope s) (evalStmt limit' fuel' scope s)
  block : ∀ scope ss last,
    R (evalBlock limit fuel scope ss last) (evalBlock limit' fuel' scope ss last)
  loop : ∀ scope body count last,
    R (evalLoop limit fuel scope body count last) (evalLoop limit' fuel' scope body count last)
  whileLoop : ∀ scope condition body last,
    R (evalWhile limit fuel scope condition body last)
      (evalWhile limit' fuel' scope condition body last)
  call : ∀ f arguments pos,
    R (callFunction limit fuel f arguments pos) (callFunction limit' fuel' f arguments pos)

namespace Simulation

variable {R : {α : Type} → Eval α → Eval α → Prop} {limit limit' : Nat}
  (h : Simulation R limit limit')

include h

/-- By induction on the names that are declared. -/
theorem declareAll (scope : ScopeId) (constant : Bool) (pos : Position)
    (entries : List (String × Value)) :
    R (Eval.declareAll scope constant pos entries)
      (Eval.declareAll scope constant pos entries) := by
  induction entries with
  | nil => exact h.pure ()
  | cons entry entries ih => exact h.bind (h.declare ..) fun _ => ih

/-- A result that is computed without the machine is the same in both runs. -/
theorem ofExcept {α : Type} (pos : Position) (result : Except RuntimeError.Cause α) :
    R (Eval.ofExcept pos result) (Eval.ofExcept pos result) := by
  cases result with
  | ok a => exact h.pure a
  | error cause => exact h.fail cause pos

/-- A host function is made of printing, failing and giving a value. -/
theorem runNative (f : Native) (arguments : List Value) (pos : Position) :
    R (f.run arguments pos) (f.run arguments pos) := by
  unfold Native.run
  cases f.kind with
  | println =>
    cases f.channel with
    | console => exact h.bind (h.print _ _) fun _ => h.pure _
    | discarded => exact h.pure _
  | assert =>
    match arguments with
    | [v] =>
      refine h.bind (h.ofExcept pos _) fun holds => ?_
      by_cases hholds : holds = true
      · rw [if_pos hholds]
        exact h.pure v
      · rw [if_neg hholds]
        exact h.fail _ _
    | [] | _ :: _ :: _ => exact h.fail _ _

theorem callNative (f : Native) (arguments : List Value) (pos : Position) :
    R (f.call arguments pos) (f.call arguments pos) := by
  unfold Native.call
  cases f.kind.arity? with
  | none => exact h.runNative f arguments pos
  | some arity =>
    by_cases harity : arity = arguments.length
    · simp only [if_pos harity]
      exact h.runNative f arguments pos
    · simp only [if_neg harity]
      exact h.fail _ _

section Step

variable {fuel fuel' : Nat} (ih : Related R limit limit' fuel fuel')

include ih

/-- One case for each kind of expression; the fuel of both runs falls together. -/
theorem expr (scope : ScopeId) (e : Expr) :
    R (evalExpr limit (fuel + 1) scope e) (evalExpr limit' (fuel' + 1) scope e) := by
  cases e with
  | number x _ =>
    rw [evalExpr, evalExpr]
    exact h.pure _
  | bool b _ =>
    rw [evalExpr, evalExpr]
    exact h.pure _
  | identifier name pos =>
    rw [evalExpr, evalExpr]
    exact h.lookup scope name pos
  | assign target value pos =>
    cases target with
    | identifier name _ =>
      rw [evalExpr, evalExpr]
      exact h.bind (ih.expr scope value) fun v => h.assign scope name v pos
    | _ =>
      simp only [evalExpr]
      exact h.fail _ _
  | not operand pos =>
    rw [evalExpr, evalExpr]
    exact h.bind (ih.expr scope operand) fun v => h.ofExcept pos _
  | binary op left right pos =>
    rw [evalExpr, evalExpr]
    refine h.bind (ih.expr scope left) fun l => ?_
    exact h.bind (ih.expr scope right) fun r => h.ofExcept pos _
  | call callee arguments pos =>
    rw [evalExpr, evalExpr]
    refine h.bind (ih.expr scope callee) fun f => ?_
    refine h.bind (ih.arguments scope arguments) fun vs => ?_
    cases f with
    | function f => exact ih.call f vs pos
    | native f => exact h.callNative f vs pos
    | _ => exact h.fail _ _

theorem arguments (scope : ScopeId) (es : List Expr) :
    R (evalArguments limit (fuel + 1) scope es) (evalArguments limit' (fuel' + 1) scope es) := by
  cases es with
  | nil =>
    rw [evalArguments, evalArguments]
    exact h.pure _
  | cons e es =>
    rw [evalArguments, evalArguments]
    refine h.bind (ih.expr scope e) fun v => ?_
    exact h.bind (ih.arguments scope es) fun vs => h.pure _

/-- One case for each kind of statement. -/
theorem stmt (scope : ScopeId) (s : Stmt) :
    R (evalStmt limit (fuel + 1) scope s) (evalStmt limit' (fuel' + 1) scope s) := by
  cases s with
  | declare name value constant pos =>
    cases value with
    | none =>
      rw [evalStmt, evalStmt]
      exact h.declare ..
    | some value =>
      rw [evalStmt, evalStmt]
      exact h.bind (ih.expr scope value) fun v => h.declare ..
  | function name params body pos =>
    rw [evalStmt, evalStmt]
    exact h.declare ..
  | loop count body pos =>
    rw [evalStmt, evalStmt]
    exact ih.loop scope body count .nil
  | whileLoop condition body pos =>
    rw [evalStmt, evalStmt]
    exact ih.whileLoop scope condition body .nil
  | expr e =>
    rw [evalStmt, evalStmt]
    exact ih.expr scope e

theorem block (scope : ScopeId) (ss : List Stmt) (last : Value) :
    R (evalBlock limit (fuel + 1) scope ss last) (evalBlock limit' (fuel' + 1) scope ss last) := by
  cases ss with
  | nil =>
    rw [evalBlock, evalBlock]
    exact h.pure last
  | cons s ss =>
    rw [evalBlock, evalBlock]
    exact h.bind (ih.stmt scope s) fun v => ih.block scope ss v

theorem loop (scope : ScopeId) (body : List Stmt) (count : Nat) (last : Value) :
    R (evalLoop limit (fuel + 1) scope body count last)
      (evalLoop limit' (fuel' + 1) scope body count last) := by
  cases count with
  | zero =>
    rw [evalLoop, evalLoop]
    exact h.pure last
  | succ count =>
    rw [evalLoop, evalLoop]
    exact h.bind (ih.block scope body .nil) fun v => ih.loop scope body count v

theorem whileLoop (scope : ScopeId) (condition : Expr) (body : List Stmt) (last : Value) :
    R (evalWhile limit (fuel + 1) scope condition body last)
      (evalWhile limit' (fuel' + 1) scope condition body last) := by
  rw [evalWhile, evalWhile]
  refine h.bind (ih.expr scope condition) fun v => ?_
  cases v with
  | bool b =>
    cases b with
    | true =>
      exact h.bind (ih.block scope body .nil) fun u => ih.whileLoop scope condition body u
    | false => exact h.pure last
  | _ => exact h.pure last

/-- A call claims its depth under the limit of its own run, which is where the limits are compared.
-/
theorem call (f : Function) (arguments : List Value) (pos : Position) :
    R (callFunction limit (fuel + 1) f arguments pos)
      (callFunction limit' (fuel' + 1) f arguments pos) := by
  rw [callFunction, callFunction]
  by_cases harity : arguments.length = f.params.length
  · rw [if_pos harity, if_pos harity]
    refine h.bind (h.claimDepth pos) fun _ => ?_
    refine h.bind (h.newScope _) fun scope => ?_
    refine h.bind (h.declareAll ..) fun _ => ?_
    exact h.deeper (ih.block scope f.body .nil)
  · rw [if_neg harity, if_neg harity]
    exact h.fail _ _

end Step

/-- Without fuel nothing is done, which the relation must allow on the left. -/
theorem related_zero (fuel' : Nat) : Related R limit limit' 0 fuel' where
  expr _ _ := by
    rw [evalExpr]
    exact h.unfinished _
  arguments _ _ := by
    rw [evalArguments]
    exact h.unfinished _
  stmt _ _ := by
    rw [evalStmt]
    exact h.unfinished _
  block _ _ _ := by
    rw [evalBlock]
    exact h.unfinished _
  loop _ _ _ _ := by
    rw [evalLoop]
    exact h.unfinished _
  whileLoop _ _ _ _ := by
    rw [evalWhile]
    exact h.unfinished _
  call _ _ _ := by
    rw [callFunction]
    exact h.unfinished _

/-- Two runs of the evaluator are related if the second has at least as much fuel. -/
theorem related {fuel fuel' : Nat} (hle : fuel ≤ fuel') : Related R limit limit' fuel fuel' := by
  induction fuel generalizing fuel' with
  | zero => exact h.related_zero fuel'
  | succ fuel ih =>
    -- a step of the two runs spends one unit of fuel in each
    cases fuel' with
    | zero => cases hle
    | succ fuel' =>
      have hrec := ih (Nat.le_of_succ_le_succ hle)
      exact ⟨h.expr hrec, h.arguments hrec, h.stmt hrec, h.block hrec, h.loop hrec,
        h.whileLoop hrec, h.call hrec⟩

/-- Two runs of a program are related if the second has at least as much fuel. -/
theorem program {fuel fuel' : Nat} (hle : fuel ≤ fuel') (scope : ScopeId) (p : Program) :
    R (p.eval limit fuel scope) (p.eval limit' fuel' scope) :=
  (h.related hle).block scope p .nil

end Simulation

/-! ## Evaluations of the store -/

/-- The evaluation reads and changes only the store: on machines with the same store it ends alike,
and leaves all else as it is. -/
def StoreOnly {α : Type} (x : Eval α) : Prop :=
  ∀ m m' : Machine, m'.store = m.store → x m' = (x m).mapMachine ({ m' with store := ·.store })

section StoreOnly

variable {α : Type} {scope : ScopeId} {name : String} {v : Value} {pos : Position}

/-- An evaluation of the store leaves the sink and the depths alone. -/
theorem StoreOnly.frame {x : Eval α} (hx : StoreOnly x) {m m' : Machine}
    (hends : (x m).EndsIn m') : m' = { m with store := m'.store } := by
  rw [hx m m rfl] at hends
  obtain ⟨m₁, -, rfl⟩ := (Outcome.endsIn_mapMachine _ _).mp hends
  rfl

theorem storeOnly_pure (a : α) : StoreOnly (pure a) := by
  rintro m ⟨⟩ rfl
  rfl

theorem storeOnly_fail (cause : RuntimeError.Cause) : StoreOnly (Eval.fail cause pos : Eval α) := by
  rintro m ⟨⟩ rfl
  rfl

theorem storeOnly_lookup : StoreOnly (Eval.lookup scope name pos) := by
  rintro m ⟨⟩ rfl
  simp only [Eval.lookup]
  cases m.store.lookup scope name <;> rfl

theorem storeOnly_declare {constant : Bool} :
    StoreOnly (Eval.declare scope name v constant pos) := by
  rintro m ⟨⟩ rfl
  simp only [Eval.declare]
  cases m.store.declare scope name v constant <;> rfl

theorem storeOnly_assign : StoreOnly (Eval.assign scope name v pos) := by
  rintro m ⟨⟩ rfl
  simp only [Eval.assign]
  cases m.store.assign scope name v <;> rfl

theorem storeOnly_newScope (parent : Option ScopeId) : StoreOnly (Eval.newScope parent) := by
  rintro m ⟨⟩ rfl
  rfl

end StoreOnly

/-- A relation between two runs that holds of everything that concerns only the store. -/
theorem Simulation.ofStoreOnly {R : {α : Type} → Eval α → Eval α → Prop} {limit limit' : Nat}
    (unfinished : ∀ {α : Type} (y : Eval α), R Eval.unfinished y)
    (storeOnly : ∀ {α : Type} {x : Eval α}, StoreOnly x → R x x)
    (bind : ∀ {α β : Type} {x y : Eval α} {f g : α → Eval β},
      R x y → (∀ a, R (f a) (g a)) → R (x >>= f) (y >>= g))
    (deeper : ∀ {α : Type} {x y : Eval α}, R x y → R (Eval.deeper x) (Eval.deeper y))
    (print : ∀ text pos, R (Eval.print text pos) (Eval.print text pos))
    (claimDepth : ∀ pos, R (Eval.claimDepth limit pos) (Eval.claimDepth limit' pos)) :
    Simulation R limit limit' where
  unfinished := unfinished
  pure a := storeOnly (storeOnly_pure a)
  bind := bind
  deeper := deeper
  fail cause _ := storeOnly (storeOnly_fail cause)
  lookup _ _ _ := storeOnly storeOnly_lookup
  declare _ _ _ _ _ := storeOnly storeOnly_declare
  assign _ _ _ _ := storeOnly storeOnly_assign
  newScope parent := storeOnly (storeOnly_newScope parent)
  print := print
  claimDepth := claimDepth

/-! ## More fuel -/

/-- The first evaluation has used up its fuel, or both end in the same way. -/
def Approximates {α : Type} (x y : Eval α) : Prop :=
  ∀ m, x m = .unfinished ∨ y m = x m

theorem approximates_refl {α : Type} (x : Eval α) : Approximates x x :=
  fun _ => Or.inr rfl

/-- If more fuel changes no outcome of either part, it changes none of both in turn. -/
theorem approximates_bind {α β : Type} {x y : Eval α} {f g : α → Eval β}
    (hx : Approximates x y) (hf : ∀ a, Approximates (f a) (g a)) :
    Approximates (x >>= f) (y >>= g) := by
  intro m
  rw [Eval.bind_apply, Eval.bind_apply]
  rcases hx m with hm | hm
  · rw [hm]
    exact Or.inl rfl
  · rw [hm]
    cases x m with
    | done a m₁ => exact hf a m₁
    | failed e m₁ => exact Or.inr rfl
    | unfinished => exact Or.inl rfl

theorem approximates_deeper {α : Type} {x y : Eval α} (hx : Approximates x y) :
    Approximates (Eval.deeper x) (Eval.deeper y) := by
  intro m
  rw [Eval.deeper_apply, Eval.deeper_apply]
  rcases hx { m with depth := m.depth + 1 } with hm | hm
  · rw [hm]
    exact Or.inl rfl
  · rw [hm]
    exact Or.inr rfl

/-- More fuel is a simulation of a run by itself. -/
theorem simulation_approximates (limit : Nat) : Simulation Approximates limit limit :=
  .ofStoreOnly (fun _ _ => Or.inl rfl) (fun _ => approximates_refl _) approximates_bind
    approximates_deeper (fun _ _ => approximates_refl _) fun _ => approximates_refl _

/-- A run that has finished ends in the same way with more fuel. -/
theorem eval_of_le {limit fuel fuel' : Nat} (hle : fuel ≤ fuel') {scope : ScopeId} {p : Program}
    {m : Machine} (hfinished : p.eval limit fuel scope m ≠ .unfinished) :
    p.eval limit fuel' scope m = p.eval limit fuel scope m :=
  ((simulation_approximates limit).program hle scope p m).resolve_left hfinished

/-! ## How a run ends -/

section Settles

variable {ε ε' α β : Type} {run : Nat → Outcome ε α} {o : Outcome ε α}

/-- With enough fuel, and all the more with more of it, a run ends in the given way. -/
def Settles (run : Nat → Outcome ε α) (o : Outcome ε α) : Prop :=
  o ≠ .unfinished ∧ ∃ n, ∀ fuel, n ≤ fuel → run fuel = o

/-- A run that ends in the same way with more fuel, once it has finished. -/
def Steady (run : Nat → Outcome ε α) : Prop :=
  ∀ fuel fuel', fuel ≤ fuel' → run fuel ≠ .unfinished → run fuel' = run fuel

/-- Once a run has ended, more fuel does not change its outcome. -/
theorem steady_eval (limit : Nat) (scope : ScopeId) (p : Program) (m : Machine) :
    Steady fun fuel => p.eval limit fuel scope m :=
  fun _ _ hle hfinished => eval_of_le hle hfinished

/-- One amount of fuel with which a steady run ends is enough. -/
theorem Steady.settles_iff (h : Steady run) :
    Settles run o ↔ o ≠ .unfinished ∧ ∃ fuel, run fuel = o := by
  refine and_congr_right fun ho => ⟨?_, ?_⟩
  · rintro ⟨n, hn⟩
    exact ⟨n, hn n (Nat.le_refl n)⟩
  · rintro ⟨fuel, rfl⟩
    exact ⟨fuel, fun fuel' hle => h fuel fuel' hle ho⟩

/-- What is read off the end of a run is settled when the run is. -/
theorem Steady.settles_map (h : Steady run) {view : Outcome ε α → Outcome ε' β}
    (hview : ∀ o, view o = .unfinished ↔ o = .unfinished) {o' : Outcome ε' β} :
    Settles (fun fuel => view (run fuel)) o' ↔ ∃ o, Settles run o ∧ o' = view o := by
  constructor
  · rintro ⟨ho', n, hn⟩
    have hend : view (run n) = o' := hn n (Nat.le_refl n)
    have hfinished : run n ≠ .unfinished := by
      intro hrun
      rw [← hend] at ho'
      exact ho' ((hview _).mpr hrun)
    exact ⟨run n, h.settles_iff.mpr ⟨hfinished, n, rfl⟩, hend.symm⟩
  · rintro ⟨o, ⟨ho, n, hn⟩, rfl⟩
    exact ⟨fun hunfinished => ho ((hview o).mp hunfinished), n,
      fun fuel hfuel => congrArg view (hn fuel hfuel)⟩

end Settles

/-! ## Evaluations with any fuel -/

section AnyFuel

variable {α β : Type} {x y : Nat → Eval α} {f : Nat → α → Eval β} {m : Machine}

/-- With enough fuel, an evaluation ends in the given way. -/
def Ends (x : Nat → Eval α) (m : Machine) (o : Outcome RuntimeError α) : Prop :=
  Settles (fun fuel => x fuel m) o

/-- An evaluation that ends in the same way with more fuel, once it has finished. -/
def Growing (x : Nat → Eval α) : Prop :=
  ∀ fuel fuel', fuel ≤ fuel' → Approximates (x fuel) (x fuel')

/-- One amount of fuel with which an evaluation ends is enough. -/
theorem Growing.ends_iff (hx : Growing x) {o : Outcome RuntimeError α} :
    Ends x m o ↔ o ≠ .unfinished ∧ ∃ fuel, x fuel m = o :=
  Steady.settles_iff fun fuel fuel' hle hfinished => (hx fuel fuel' hle m).resolve_left hfinished

theorem Growing.ends_of_done (hx : Growing x) {fuel : Nat} {a : α} {m' : Machine}
    (h : x fuel m = .done a m') : Ends x m (.done a m') := by
  refine hx.ends_iff.mpr ⟨?_, fuel, h⟩
  intro hunfinished
  cases hunfinished

/-- An evaluation ends in one way. -/
theorem Ends.unique {o o' : Outcome RuntimeError α} (h : Ends x m o) (h' : Ends x m o') :
    o = o' := by
  obtain ⟨-, n, hn⟩ := h
  obtain ⟨-, n', hn'⟩ := h'
  rw [← hn (max n n') (by omega), ← hn' (max n n') (by omega)]

/-- One unit of fuel pays for a step. -/
theorem ends_of_step (hstep : ∀ fuel, x (fuel + 1) = y fuel) {o : Outcome RuntimeError α} :
    Ends x m o ↔ Ends y m o := by
  refine and_congr_right fun _ => ⟨?_, ?_⟩
  · rintro ⟨n, hn⟩
    refine ⟨n, fun fuel hfuel => ?_⟩
    show y fuel m = o
    rw [← hstep]
    exact hn (fuel + 1) (by omega)
  · rintro ⟨n, hn⟩
    refine ⟨n + 1, fun fuel hfuel => ?_⟩
    obtain ⟨fuel, rfl⟩ : ∃ k, fuel = k + 1 := ⟨fuel - 1, by omega⟩
    show x (fuel + 1) m = o
    rw [hstep]
    exact hn fuel (by omega)

theorem ends_pure {a : α} {o : Outcome RuntimeError α} :
    Ends (fun _ => pure a) m o ↔ o = .done a m := by
  constructor
  · rintro ⟨-, n, hn⟩
    exact (hn n (Nat.le_refl n)).symm
  · rintro rfl
    exact ⟨nofun, 0, fun _ _ => rfl⟩

/-- A sequence ends as its parts do in turn. -/
theorem ends_bind (hx : Growing x) (hf : ∀ a, Growing (f · a)) {o : Outcome RuntimeError β} :
    Ends (fun fuel => x fuel >>= f fuel) m o ↔
      Outcome.InTurn (Ends x m) (fun a m₁ => Ends (f · a) m₁) o := by
  constructor
  · rintro ⟨ho, n, hn⟩
    have hend : (x n >>= f n) m = o := hn n (Nat.le_refl n)
    rw [Eval.bind_apply] at hend
    cases hfirst : x n m with
    | done a m₁ =>
      rw [hfirst] at hend
      exact Or.inl ⟨a, m₁, hx.ends_of_done hfirst, (hf a).ends_iff.mpr ⟨ho, n, hend⟩⟩
    | failed e m₁ =>
      rw [hfirst] at hend
      exact Or.inr ⟨e, m₁, hx.ends_iff.mpr ⟨nofun, n, hfirst⟩, hend.symm⟩
    | unfinished =>
      rw [hfirst] at hend
      exact absurd hend.symm ho
  · rintro (⟨a, m₁, ⟨-, n, hn⟩, ho, n', hn'⟩ | ⟨e, m₁, ⟨-, n, hn⟩, rfl⟩)
    · -- both parts are given the fuel that the more demanding one needs
      refine ⟨ho, max n n', fun fuel hfuel => ?_⟩
      have hfirst : x fuel m = .done a m₁ := hn fuel (by omega)
      show (x fuel >>= f fuel) m = o
      rw [Eval.bind_apply, hfirst]
      exact hn' fuel (by omega)
    · refine ⟨nofun, n, fun fuel hfuel => ?_⟩
      have hfirst : x fuel m = .failed e m₁ := hn fuel hfuel
      show (x fuel >>= f fuel) m = .failed e m₁
      rw [Eval.bind_apply, hfirst]

end AnyFuel

section Growth

variable (limit : Nat) (scope : ScopeId)

theorem growing_evalExpr (e : Expr) : Growing (evalExpr limit · scope e) :=
  fun _ _ hle => ((simulation_approximates limit).related hle).expr scope e

theorem growing_evalStmt (s : Stmt) : Growing (evalStmt limit · scope s) :=
  fun _ _ hle => ((simulation_approximates limit).related hle).stmt scope s

theorem growing_evalBlock (ss : List Stmt) (last : Value) :
    Growing (evalBlock limit · scope ss last) :=
  fun _ _ hle => ((simulation_approximates limit).related hle).block scope ss last

theorem growing_evalLoop (body : List Stmt) (count : Nat) (last : Value) :
    Growing (evalLoop limit · scope body count last) :=
  fun _ _ hle => ((simulation_approximates limit).related hle).loop scope body count last

theorem growing_evalWhile (condition : Expr) (body : List Stmt) (last : Value) :
    Growing (evalWhile limit · scope condition body last) :=
  fun _ _ hle => ((simulation_approximates limit).related hle).whileLoop scope condition body last

end Growth

end Scriptlet
