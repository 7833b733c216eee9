import Mathlib.Logic.Relation
import Scriptlet.Proofs.Eval.Simulation

/-! # The count of nested calls is balanced

Evaluating anything leaves the count of nested calls as it was, whether it succeeds or fails, and at
no time in between does the count pass the limit (`depth_balanced`).

What happens in between is said with tasks. A task is a piece of a program that the evaluator works
on. Its plan lists the tasks that it starts in turn, and to evaluate a task is to carry out its plan
(`Task.eval_succ`). So the tasks that are started, directly or through others, are all that happens
in between, and the count changes only where the body of a function is started or left.
-/

namespace Scriptlet

/-! ## Tasks and plans -/

/-- What the evaluator can be asked to evaluate. -/
inductive Task where
  | expr (scope : ScopeId) (e : Expr)
  | arguments (scope : ScopeId) (es : List Expr)
  | stmt (scope : ScopeId) (s : Stmt)
  | block (scope : ScopeId) (ss : List Stmt) (last : Value)
  | loop (scope : ScopeId) (body : List Stmt) (count : Nat) (last : Value)
  | whileLoop (scope : ScopeId) (condition : Expr) (body : List Stmt) (last : Value)
  | call (f : Function) (arguments : List Value) (pos : Position)

/-- What a task gives if it succeeds. -/
def Task.Result : Task → Type
  | .arguments _ _ => List Value
  | .expr _ _ | .stmt _ _ | .block _ _ _ | .loop _ _ _ _ | .whileLoop _ _ _ _ | .call _ _ _ => Value

/-- Evaluates a task. -/
def Task.eval (limit fuel : Nat) : (t : Task) → Eval t.Result
  | .expr scope e => evalExpr limit fuel scope e
  | .arguments scope es => evalArguments limit fuel scope es
  | .stmt scope s => evalStmt limit fuel scope s
  | .block scope ss last => evalBlock limit fuel scope ss last
  | .loop scope body count last => evalLoop limit fuel scope body count last
  | .whileLoop scope condition body last => evalWhile limit fuel scope condition body last
  | .call f vs pos => callFunction limit fuel f vs pos

/-- How a task is carried out: it starts other tasks in turn, or the body of a function one level
deeper, each once the one before has given its value, and ends with an evaluation that starts
nothing. -/
inductive Plan (α : Type) where
  | finish (x : Eval α)
  | start (t : Task) (next : t.Result → Plan α)
  | enter (f : Function) (arguments : List Value) (pos : Position) (next : Value → Plan α)

/-- Makes the scope that the body of a function runs in, if the limit leaves a level free. -/
def Function.entry (limit : Nat) (f : Function) (arguments : List Value) (pos : Position) :
    Eval ScopeId := do
  Eval.claimDepth limit pos
  let scope ← Eval.newScope (some f.closure)
  Eval.declareAll scope false pos (f.params.zip arguments)
  pure scope

/-- Carries out a plan, given how tasks are evaluated. -/
def Plan.run {α : Type} (limit : Nat) (eval : (t : Task) → Eval t.Result) : Plan α → Eval α
  | .finish x => x
  | .start t next => do
    let a ← eval t
    (next a).run limit eval
  | .enter f arguments pos next => do
    let scope ← f.entry limit arguments pos
    let v ← Eval.deeper (eval (.block scope f.body .nil))
    (next v).run limit eval

/-- The plan that starts one task and gives its value. -/
def Plan.just (t : Task) : Plan t.Result :=
  .start t fun a => .finish (pure a)

/-- The tasks that an expression starts, in turn. -/
def Expr.plan (scope : ScopeId) : Expr → Plan Value
  | .number x _ => .finish (pure (.number x))
  | .bool b _ => .finish (pure (.bool b))
  | .identifier name pos => .finish (Eval.lookup scope name pos)
  | .assign (.identifier name _) value pos =>
    .start (.expr scope value) fun v => .finish (Eval.assign scope name v pos)
  | .assign other _ _ => .finish (Eval.fail (.invalidTarget other.kind) other.pos)
  | .not operand pos => .start (.expr scope operand) fun v => .finish (Eval.ofExcept pos v.negate)
  | .binary op left right pos =>
    .start (.expr scope left) fun l => .start (.expr scope right) fun r =>
      .finish (Eval.ofExcept pos (op.apply l r))
  | .call callee arguments pos =>
    .start (.expr scope callee) fun f => .start (.arguments scope arguments) fun vs =>
      match f with
      | .function f => .just (.call f vs pos)
      | .native f => .finish (f.call vs pos)
      | other => .finish (Eval.fail (.notCallable other.text other.type) pos)

/-- The tasks that a statement starts, in turn. -/
def Stmt.plan (scope : ScopeId) : Stmt → Plan Value
  | .declare name none constant pos => .finish (Eval.declare scope name .nil constant pos)
  | .declare name (some value) constant pos =>
    .start (.expr scope value) fun v => .finish (Eval.declare scope name v constant pos)
  | .function name params body pos =>
    .finish (Eval.declare scope name (.function ⟨name, params, body, scope⟩) true pos)
  | .loop count body _ => .just (.loop scope body count .nil)
  | .whileLoop condition body _ => .just (.whileLoop scope condition body .nil)
  | .expr e => .just (.expr scope e)

/-- The tasks that a task starts, in turn. -/
def Task.plan : (t : Task) → Plan t.Result
  | .expr scope e => e.plan scope
  | .arguments _ [] => .finish (pure [])
  | .arguments scope (e :: es) =>
    .start (.expr scope e) fun v => .start (.arguments scope es) fun vs => .finish (pure (v :: vs))
  | .stmt scope s => s.plan scope
  | .block _ [] last => .finish (pure last)
  | .block scope (s :: ss) _ => .start (.stmt scope s) fun v => .just (.block scope ss v)
  | .loop _ _ 0 last => .finish (pure last)
  | .loop scope body (count + 1) _ =>
    .start (.block scope body .nil) fun v => .just (.loop scope body count v)
  | .whileLoop scope condition body last =>
    .start (.expr scope condition) fun
      | .bool true =>
        .start (.block scope body .nil) fun v => .just (.whileLoop scope condition body v)
      | _ => .finish (pure last)
  | .call f vs pos =>
    if vs.length = f.params.length then .enter f vs pos fun v => .finish (pure v)
    else .finish (Eval.fail (.arityMismatch f.name f.params.length vs.length) pos)

theorem Eval.bind_pure {α : Type} (x : Eval α) : (x >>= fun a => pure a) = x := by
  funext m
  rw [Eval.bind_apply]
  cases x m <;> rfl

theorem Eval.bind_assoc {α β γ : Type} (x : Eval α) (f : α → Eval β) (g : β → Eval γ) :
    (x >>= f) >>= g = x >>= fun a => f a >>= g := by
  funext m
  simp only [Eval.bind_apply]
  cases x m <;> rfl

section Plans

variable (limit fuel : Nat)

theorem Task.eval_eq_just (t : Task) :
    t.eval limit fuel = (Plan.just t).run limit (Task.eval limit fuel) :=
  (Eval.bind_pure _).symm

/-- An expression is evaluated by carrying out its plan with the fuel that is left. -/
theorem evalExpr_succ (scope : ScopeId) (e : Expr) :
    evalExpr limit (fuel + 1) scope e = (e.plan scope).run limit (Task.eval limit fuel) := by
  cases e with
  | assign target value pos =>
    cases target with
    | identifier name _ => rw [evalExpr]; rfl
    | _ => simp only [evalExpr]; rfl
  | call callee arguments pos =>
    rw [evalExpr]
    refine congrArg _ (funext fun f => congrArg _ (funext fun vs => ?_))
    cases f with
    | function f => exact Task.eval_eq_just limit fuel (.call f vs pos)
    | _ => rfl
  | _ => rw [evalExpr]; rfl

theorem evalStmt_succ (scope : ScopeId) (s : Stmt) :
    evalStmt limit (fuel + 1) scope s = (s.plan scope).run limit (Task.eval limit fuel) := by
  cases s with
  | declare name value constant pos => cases value <;> rw [evalStmt] <;> rfl
  | function name params body pos => rw [evalStmt]; rfl
  | loop count body pos =>
    rw [evalStmt]
    exact Task.eval_eq_just limit fuel (.loop scope body count .nil)
  | whileLoop condition body pos =>
    rw [evalStmt]
    exact Task.eval_eq_just limit fuel (.whileLoop scope condition body .nil)
  | expr e =>
    rw [evalStmt]
    exact Task.eval_eq_just limit fuel (.expr scope e)

theorem callFunction_succ (f : Function) (vs : List Value) (pos : Position) :
    callFunction limit (fuel + 1) f vs pos =
      (Task.plan (.call f vs pos)).run limit (Task.eval limit fuel) := by
  rw [callFunction, Task.plan]
  by_cases harity : vs.length = f.params.length
  · rw [if_pos harity, if_pos harity]
    simp only [Plan.run, Function.entry, Eval.bind_assoc]
    refine congrArg _ (funext fun _ => congrArg _ (funext fun scope => ?_))
    exact congrArg _ (funext fun _ => (Eval.bind_pure _).symm)
  · rw [if_neg harity, if_neg harity]
    rfl

/-- To evaluate a task is to carry out its plan. -/
theorem Task.eval_succ (t : Task) :
    t.eval limit (fuel + 1) = t.plan.run limit (Task.eval limit fuel) := by
  cases t with
  | expr scope e => exact evalExpr_succ limit fuel scope e
  | arguments scope es => cases es <;> rw [Task.eval, evalArguments] <;> rfl
  | stmt scope s => exact evalStmt_succ limit fuel scope s
  | block scope ss last =>
    rw [Task.eval]
    cases ss with
    | nil => rw [evalBlock]; rfl
    | cons s ss =>
      rw [evalBlock]
      exact congrArg _ (funext fun v => eval_eq_just limit fuel (.block scope ss v))
  | loop scope body count last =>
    rw [Task.eval]
    cases count with
    | zero => rw [evalLoop]; rfl
    | succ count =>
      rw [evalLoop]
      exact congrArg _ (funext fun v => eval_eq_just limit fuel (.loop scope body count v))
  | whileLoop scope condition body last =>
    rw [Task.eval, evalWhile]
    refine congrArg _ (funext fun v => ?_)
    cases v with
    | bool b =>
      cases b with
      | true =>
        exact congrArg (evalBlock limit fuel scope body .nil >>= ·) (funext fun v =>
          eval_eq_just limit fuel (.whileLoop scope condition body v))
      | false => rfl
    | _ => rfl
  | call f vs pos => exact callFunction_succ limit fuel f vs pos

end Plans

/-! ## What is started -/

/-- Carrying out a plan on the first machine starts a task on the second. -/
inductive Plan.Starts {α : Type} (limit : Nat) (eval : (t : Task) → Eval t.Result) :
    Plan α → Machine → Task → Machine → Prop
  | now {t : Task} {next : t.Result → Plan α} {m : Machine} :
      Starts limit eval (.start t next) m t m
  | later {t t' : Task} {next : t.Result → Plan α} {a : t.Result} {m m₁ m' : Machine} :
      eval t m = .done a m₁ → Starts limit eval (next a) m₁ t' m' →
      Starts limit eval (.start t next) m t' m'
  | body {f : Function} {vs : List Value} {pos : Position} {next : Value → Plan α}
      {scope : ScopeId} {m m₁ : Machine} :
      f.entry limit vs pos m = .done scope m₁ →
      Starts limit eval (.enter f vs pos next) m (.block scope f.body .nil)
        { m₁ with depth := m₁.depth + 1 }
  | afterBody {f : Function} {vs : List Value} {pos : Position} {next : Value → Plan α}
      {scope : ScopeId} {v : Value} {t' : Task} {m m₁ m₂ m' : Machine} :
      f.entry limit vs pos m = .done scope m₁ →
      Eval.deeper (eval (.block scope f.body .nil)) m₁ = .done v m₂ →
      Starts limit eval (next v) m₂ t' m' → Starts limit eval (.enter f vs pos next) m t' m'

/-- A task on a machine, with some fuel left. -/
structure Activation where
  fuel : Nat
  task : Task
  machine : Machine

namespace Activation

variable (limit : Nat)

/-- The activation ends in a machine, with a value or with an error. -/
def EndsIn (a : Activation) (m' : Machine) : Prop :=
  (a.task.eval limit a.fuel a.machine).EndsIn m'

/-- The first activation starts the second. -/
inductive Starts : Activation → Activation → Prop
  | of_plan {fuel : Nat} {t t' : Task} {m m' : Machine} :
      t.plan.Starts limit (Task.eval limit fuel) m t' m' → Starts ⟨fuel + 1, t, m⟩ ⟨fuel, t', m'⟩

/-- The second activation is the first, or is started while the first goes on, by it or by one that
it has started. -/
abbrev Reaches : Activation → Activation → Prop :=
  Relation.ReflTransGen (Starts limit)

end Activation

/-! ## Balance -/

/-- The evaluation leaves the count of nested calls as it was, wherever it ends. The second
evaluation does not matter. -/
def Level {α : Type} (x _y : Eval α) : Prop :=
  ∀ m m', (x m).EndsIn m' → m'.depth = m.depth

/-- Evaluations in turn that leave the depth alone leave it alone together. -/
theorem level_bind {α β : Type} {x y : Eval α} {f g : α → Eval β} (hx : Level x y)
    (hf : ∀ a, Level (f a) (g a)) : Level (x >>= f) (y >>= g) := by
  intro m m' hends
  rw [Eval.bind_apply] at hends
  have hfirst := hx m
  cases hxm : x m with
  | done a m₁ =>
    rw [hxm] at hends hfirst
    exact (hf a m₁ m' hends).trans (hfirst m₁ rfl)
  | failed e m₁ =>
    rw [hxm] at hends hfirst
    exact hfirst m' hends
  | unfinished =>
    rw [hxm] at hends
    exact hends.elim

/-- What is added on the way down is taken away on the way up. -/
theorem level_deeper {α : Type} {x y : Eval α} (hx : Level x y) :
    Level (Eval.deeper x) (Eval.deeper y) := by
  intro m m' hends
  rw [Eval.deeper_apply] at hends
  obtain ⟨m₁, hends₁, rfl⟩ := (Outcome.endsIn_mapMachine _ _).mp hends
  have hdepth : m₁.depth = m.depth + 1 := hx _ m₁ hends₁
  exact Nat.sub_eq_of_eq_add hdepth

theorem level_print (text : String) (pos : Position) :
    Level (Eval.print text pos) (Eval.print text pos) := by
  intro m m' hends
  unfold Eval.print at hends
  split at hends <;> rw [← hends]

theorem level_claimDepth (limit : Nat) (pos : Position) :
    Level (Eval.claimDepth limit pos) (Eval.claimDepth limit pos) := by
  intro m m' hends
  unfold Eval.claimDepth at hends
  split at hends <;> rw [← hends]

/-- Every run of the evaluator leaves the depth as it was. -/
theorem simulation_level (limit : Nat) : Simulation Level limit limit :=
  .ofStoreOnly (fun _ _ _ hends => hends.elim) (fun hx _ _ h => by rw [hx.frame h]) level_bind
    level_deeper level_print (level_claimDepth limit)

theorem Simulation.task {R : {α : Type} → Eval α → Eval α → Prop} {limit limit' : Nat}
    (h : Simulation R limit limit') (fuel : Nat) (t : Task) :
    R (t.eval limit fuel) (t.eval limit' fuel) := by
  have hrelated := h.related (Nat.le_refl fuel)
  cases t with
  | expr scope e => exact hrelated.expr scope e
  | arguments scope es => exact hrelated.arguments scope es
  | stmt scope s => exact hrelated.stmt scope s
  | block scope ss last => exact hrelated.block scope ss last
  | loop scope body count last => exact hrelated.loop scope body count last
  | whileLoop scope condition body last => exact hrelated.whileLoop scope condition body last
  | call f vs pos => exact hrelated.call f vs pos

section Depth

variable {limit : Nat} {m m' : Machine}

theorem Task.depth_eq {fuel : Nat} {t : Task} (h : (t.eval limit fuel m).EndsIn m') :
    m'.depth = m.depth :=
  (simulation_level limit).task fuel t m m' h

theorem Task.depth_of_done {fuel : Nat} {t : Task} {a : t.Result}
    (h : t.eval limit fuel m = .done a m') : m'.depth = m.depth :=
  Task.depth_eq (by rw [h]; rfl)

/-- The body of a function is entered only if the limit leaves a level free. -/
theorem Function.depth_of_entry {f : Function} {vs : List Value} {pos : Position} {scope : ScopeId}
    (h : f.entry limit vs pos m = .done scope m') : m.depth < limit ∧ m'.depth = m.depth := by
  have hsim := simulation_level limit
  have hlevel : Level (f.entry limit vs pos) (f.entry limit vs pos) :=
    hsim.bind (hsim.claimDepth pos) fun _ => hsim.bind (hsim.newScope _) fun _ =>
      hsim.bind (hsim.declareAll _ _ _ _) fun _ => hsim.pure _
  refine ⟨Decidable.byContradiction fun hfull => ?_, hlevel m m' (by rw [h]; rfl)⟩
  rw [Function.entry, Eval.bind_apply, Eval.claimDepth, if_neg hfull] at h
  cases h

theorem Plan.Starts.depth_le {α : Type} {fuel : Nat} {plan : Plan α} {t' : Task}
    (h : plan.Starts limit (Task.eval limit fuel) m t' m') (hm : m.depth ≤ limit) :
    m'.depth ≤ limit := by
  induction h with
  | now => exact hm
  | later hdone _ ih => exact ih ((Task.depth_of_done hdone).symm ▸ hm)
  | body hentry =>
    obtain ⟨hfree, hdepth⟩ := Function.depth_of_entry hentry
    exact Nat.le_trans (Nat.succ_le_succ (Nat.le_of_eq hdepth)) hfree
  | afterBody hentry hdone _ ih =>
    have hback := level_deeper ((simulation_level limit).task fuel _) _ _ (by rw [hdone]; rfl)
    exact ih (by rw [hback, (Function.depth_of_entry hentry).2]; exact hm)

/-- The depth stays within the limit in all that is started from an evaluation within it. -/
theorem Activation.Reaches.depth_le {a b : Activation} (h : a.Reaches limit b)
    (ha : a.machine.depth ≤ limit) : b.machine.depth ≤ limit := by
  induction h with
  | refl => exact ha
  | tail _ hstep ih =>
    obtain ⟨hstarts⟩ := hstep
    exact hstarts.depth_le ih

/-- A call starts nothing but the body of its function, one level deeper. -/
theorem Activation.Starts.depth_of_call {fuel : Nat} {f : Function} {vs : List Value}
    {pos : Position} {c : Activation}
    (h : Activation.Starts limit ⟨fuel, .call f vs pos, m⟩ c) :
    c.machine.depth = m.depth + 1 := by
  obtain ⟨hstarts⟩ := h
  rw [Task.plan] at hstarts
  split at hstarts
  · cases hstarts with
    | body hentry => exact congrArg (· + 1) (Function.depth_of_entry hentry).2
    | afterBody _ _ hnext => cases hnext
  · cases hstarts

end Depth

/-- The count of nested calls keeps between zero and the limit around an activation: it is in range
where the activation starts, and the same where it ends. If a function is called, the body starts
one level deeper. -/
structure Activation.InRange (limit : Nat) (a : Activation) : Prop where
  depth_le : a.machine.depth ≤ limit
  depth_eq : ∀ m', a.EndsIn limit m' → m'.depth = a.machine.depth
  body : ∀ f vs pos, a.task = .call f vs pos → ∀ c, a.Starts limit c →
    c.machine.depth = a.machine.depth + 1

theorem Activation.Reaches.inRange {limit : Nat} {a b : Activation} (h : a.Reaches limit b)
    (ha : a.machine.depth ≤ limit) : b.InRange limit where
  depth_le := h.depth_le ha
  depth_eq _ hends := Task.depth_eq hends
  body := by
    obtain ⟨fuel, t, m⟩ := b
    rintro f vs pos rfl c hstarts
    exact hstarts.depth_of_call

/-! ## Evaluators that have been used -/

/-- The machine without its record of how deeply calls were nested. -/
def Machine.unrecorded (m : Machine) : Machine :=
  { m with deepest := 0 }

theorem Machine.eq_of_unrecorded {m m' : Machine} (h : m'.unrecorded = m.unrecorded) :
    m' = { m with deepest := m'.deepest } := by
  obtain ⟨store, sink, depth, deepest⟩ := m'
  cases h
  rfl

/-- The first evaluation has used up its fuel, or the second ends alike, whatever depth has been
recorded before. -/
def Heedless {α : Type} (x y : Eval α) : Prop :=
  ∀ m deepest, x m = .unfinished ∨
    (y { m with deepest }).mapMachine .unrecorded = (x m).mapMachine .unrecorded

theorem StoreOnly.heedless {α : Type} {x : Eval α} (hx : StoreOnly x) : Heedless x x := by
  intro m deepest
  refine Or.inr ?_
  rw [hx m { m with deepest } rfl, hx m m rfl]
  simp only [Outcome.mapMachine_mapMachine]
  rfl

theorem heedless_bind {α β : Type} {x y : Eval α} {f g : α → Eval β} (hx : Heedless x y)
    (hf : ∀ a, Heedless (f a) (g a)) : Heedless (x >>= f) (y >>= g) := by
  intro m deepest
  rw [Eval.bind_apply, Eval.bind_apply]
  rcases hx m deepest with hxm | hxm
  · rw [hxm]
    exact Or.inl rfl
  · cases hfirst : x m with
    | done a m₁ =>
      rw [hfirst] at hxm
      obtain ⟨m₁', hsecond, hm₁⟩ := Outcome.mapMachine_eq_done hxm
      rw [hsecond, Machine.eq_of_unrecorded hm₁]
      exact hf a m₁ m₁'.deepest
    | failed e m₁ =>
      rw [hfirst] at hxm
      obtain ⟨m₁', hsecond, hm₁⟩ := Outcome.mapMachine_eq_failed hxm
      rw [hsecond]
      exact Or.inr (congrArg (Outcome.failed e) hm₁)
    | unfinished => exact Or.inl rfl

theorem heedless_deeper {α : Type} {x y : Eval α} (hx : Heedless x y) :
    Heedless (Eval.deeper x) (Eval.deeper y) := by
  intro m deepest
  rw [Eval.deeper_apply, Eval.deeper_apply]
  rcases hx { m with depth := m.depth + 1 } deepest with hxm | hxm
  · rw [hxm]
    exact Or.inl rfl
  · refine Or.inr ?_
    have hlifted := congrArg (Outcome.mapMachine fun m => { m with depth := m.depth - 1 }) hxm
    simp only [Outcome.mapMachine_mapMachine] at hlifted ⊢
    exact hlifted

theorem heedless_print (text : String) (pos : Position) :
    Heedless (Eval.print text pos) (Eval.print text pos) := by
  intro m deepest
  refine Or.inr ?_
  simp only [Eval.print]
  split <;> rfl

theorem heedless_claimDepth (limit : Nat) (pos : Position) :
    Heedless (Eval.claimDepth limit pos) (Eval.claimDepth limit pos) := by
  intro m deepest
  refine Or.inr ?_
  simp only [Eval.claimDepth]
  split <;> rfl

/-- No run of the evaluator looks at the record of the deepest call. -/
theorem simulation_heedless (limit : Nat) : Simulation Heedless limit limit :=
  .ofStoreOnly (fun _ _ _ => Or.inl rfl) StoreOnly.heedless heedless_bind heedless_deeper
    heedless_print (heedless_claimDepth limit)

/-- What was recorded before does not matter to the outcome of a task. -/
theorem Task.eval_heedless (limit fuel : Nat) (t : Task) (m : Machine) :
    (t.eval limit fuel m).mapMachine .unrecorded =
      (t.eval limit fuel m.unrecorded).mapMachine .unrecorded := by
  have hheedless := (simulation_heedless limit).task fuel t
  rcases hheedless m 0 with hm | hm
  · -- a run that finishes on the other machine would finish on this one
    rcases hheedless m.unrecorded m.deepest with hm' | hm'
    · rw [hm, hm']
    · exact hm'
  · exact hm.symm

/-- What happens to a machine between two uses of its evaluator: a task has ended, with a value or
with an error, or the host has changed the scopes and the sink. -/
inductive Machine.Use (limit : Nat) : Machine → Machine → Prop
  | task {fuel : Nat} {t : Task} {m m' : Machine} :
      (t.eval limit fuel m).EndsIn m' → Use limit m m'
  | host (m : Machine) (store : Store) (sink : Sink) : Use limit m { m with store, sink }

theorem Machine.Use.depth_eq {limit : Nat} {m m' : Machine} (h : Use limit m m') :
    m'.depth = m.depth := by
  cases h with
  | task hends => exact Task.depth_eq hends
  | host => rfl

theorem Machine.depth_of_uses {limit : Nat} {m m' : Machine}
    (h : Relation.ReflTransGen (Use limit) m m') : m'.depth = m.depth := by
  induction h with
  | refl => rfl
  | tail _ huse ih => exact huse.depth_eq.trans ih

/-- The count of nested calls is balanced. A task that starts with the count in range leaves it as
it was, whether it succeeds or fails. In between it carries out its plan, and all that is started on
the way keeps the count in range. So an evaluator that starts outside all calls is, after any number
of uses, as good as a new one: every task ends as on the machine that is rewound, apart from the
record of the largest depth. -/
theorem depth_balanced {limit : Nat} {m : Machine} (hm : m.depth ≤ limit) (fuel : Nat) (t : Task) :
    (∀ m', (t.eval limit fuel m).EndsIn m' → m'.depth = m.depth) ∧
      t.eval limit (fuel + 1) = t.plan.run limit (Task.eval limit fuel) ∧
      (∀ b, Activation.Reaches limit ⟨fuel, t, m⟩ b → b.InRange limit) ∧
      (m.depth = 0 → ∀ m', Relation.ReflTransGen (Machine.Use limit) m m' →
        (t.eval limit fuel m').mapMachine .unrecorded =
          (t.eval limit fuel m'.rewound).mapMachine .unrecorded) := by
  refine ⟨fun m' => Task.depth_eq, t.eval_succ limit fuel, fun b hb => hb.inRange hm, ?_⟩
  intro hzero m' huses
  have hrewound : m'.rewound = m'.unrecorded := by
    rw [Machine.rewound, Machine.unrecorded, ← hzero, ← Machine.depth_of_uses huses]
  rw [hrewound]
  exact t.eval_heedless limit fuel m'

/-- A function that calls itself without end. -/
def runaway : Function :=
  ⟨"f", [], [.expr (.call (.identifier "f" .nowhere) [] .nowhere)], Machine.firstScope⟩

/-- A machine whose first scope binds the function. -/
def runawayMachine : Machine :=
  { Machine.bare .none with
    store := (Machine.bare .none).store.update Machine.firstScope
      (·.add "f" ⟨.function runaway, true⟩) }

/-- How a call of the function ends under a limit of one level. -/
def runawayFrom (m : Machine) : Outcome RuntimeError Value :=
  callFunction 1 9 runaway [] .nowhere m

/-- The call fails at the second level. The count is back at zero, although the body was started with
it at the limit, and the next call ends as if there had been none before. -/
theorem runaway_balanced :
    ∃ m', (runawayFrom runawayMachine).EndsIn m' ∧ m'.depth = 0 ∧
      (∃ b, Activation.Reaches 1 ⟨9, .call runaway [] .nowhere, runawayMachine⟩ b ∧
        b.machine.depth = 1 ∧ b.InRange 1) ∧
      (runawayFrom m').mapMachine .unrecorded = (runawayFrom m'.rewound).mapMachine .unrecorded := by
  obtain ⟨hdepth, -, hreached, hused⟩ :=
    @depth_balanced 1 runawayMachine (Nat.zero_le 1) 9 (.call runaway [] .nowhere)
  have hdeepest : ((runawayFrom runawayMachine).machineOr runawayMachine).deepest = 2 := by
    decide +kernel
  obtain ⟨m', hends⟩ : ∃ m', (runawayFrom runawayMachine).EndsIn m' := by
    cases hrun : runawayFrom runawayMachine with
    | done v m' | failed e m' => exact ⟨m', rfl⟩
    | unfinished =>
      -- an unfinished run would leave the record as it was
      rw [hrun] at hdeepest
      cases hdeepest
  have hbody : Activation.Starts 1 ⟨9, .call runaway [] .nowhere, runawayMachine⟩ _ :=
    .of_plan (.body rfl)
  exact ⟨m', hends, hdepth m' hends, ⟨_, .single hbody, rfl, hreached _ (.single hbody)⟩,
    hused rfl m' (.single (.task (t := .call runaway [] .nowhere) hends))⟩

end Scriptlet
