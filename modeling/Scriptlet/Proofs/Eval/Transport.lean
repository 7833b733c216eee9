import Scriptlet.Proofs.Eval.Invariant
import Scriptlet.Proofs.Syntax.Relocation

/-! # Runs on changed machines

A transport changes stores, sinks and positions in such a way that running a program does not depend
on the change: to run the program on the changed machine is to run it and to change the machine it
leaves. For the operations on stores this is a condition of the transport, which need only hold
where an invariant does (`Transport`); for whole evaluations it follows by induction on the fuel
(`carriesWith`).

`Transport.ofScopes` makes a transport from a change that goes scope by scope.
-/

namespace Scriptlet

/-- A binding with all the positions in its value changed. -/
def Binding.relocate (f : Position → Position) (b : Binding) : Binding :=
  { b with value := b.value.relocate f }

theorem Binding.relocate_id (b : Binding) : b.relocate id = b := by
  rw [Binding.relocate, Value.relocate_id]

/-- Changes of stores, sinks and positions that go together with every operation on a store of the
invariant. -/
structure Transport {R : Region} (I : Invariant R) where
  pos : Position → Position
  store : Store → Store
  sink : Sink → Sink
  nextId : ∀ {w s}, I.store w s → (store s).nextId = s.nextId
  push : ∀ {w s parent}, I.store w s → (∀ p ∈ parent, I.scope w p) →
    (store s).push parent = store (s.push parent)
  find? : ∀ {w s id x}, I.store w s → I.scope w id → I.naming.name x →
    (store s).find? id x = (s.find? id x).map (Binding.relocate pos)
  declare : ∀ {w s id x v constant}, I.store w s → I.scope w id → I.naming.name x → I.value w v →
    (store s).declare id x (v.relocate pos) constant = (s.declare id x v constant).map store
  assign : ∀ {w s id x v}, I.store w s → I.scope w id → I.naming.name x → I.value w v →
    (store s).assign id x (v.relocate pos) = (s.assign id x v).map store
  print : ∀ s text p, (sink s).print ⟨text, pos p⟩ = (s.print ⟨text, p⟩).map id sink

/-! ## Values that operators see -/

section Values

variable (f : Position → Position)

/-- A value that refers to no scope is no function, and has no positions. -/
theorem Value.relocate_of_below {v : Value} (h : v.Below 0) : v.relocate f = v := by
  cases v with
  | function h' => exact absurd h (Nat.not_lt_zero _)
  | _ => rfl

/-- Whether a value counts as true does not depend on positions. -/
theorem Value.asBool_relocate (context : String) (v : Value) :
    (v.relocate f).asBool context = v.asBool context := by
  cases v <;> rfl

theorem Value.negate_relocate (v : Value) : (v.relocate f).negate = v.negate := by
  rw [Value.negate, Value.asBool_relocate, ← Value.negate]

/-- Operators do not see the positions in functions. -/
theorem Operator.apply_relocate (op : Operator) (l r : Value) :
    op.apply (l.relocate f) (r.relocate f) = op.apply l r := by
  cases l <;> cases r <;> rfl

/-- What is printed of values does not show positions. -/
theorem Native.lineOf_relocate (vs : List Value) :
    Native.lineOf (vs.map (Value.relocate f)) = Native.lineOf vs := by
  simp only [Native.lineOf, List.map_map]
  congr 2
  funext v
  exact v.text_relocate f

end Values

namespace Transport

variable {R : Region} {I : Invariant R} {α β : Type}

/-- The machine with store and sink changed. -/
def machine (T : Transport I) (m : Machine) : Machine :=
  { m with store := T.store m.store, sink := T.sink m.sink }

/-- The outcome with its machine changed, its error relocated, and its value changed by `g`. -/
def outcome (T : Transport I) (g : α → β) : Outcome RuntimeError α → Outcome RuntimeError β :=
  .mapParts g (fun e => ⟨e.cause, T.pos e.pos⟩) T.machine

/-- A transport that keeps positions changes the machine only. -/
theorem outcome_eq_mapMachine {T : Transport I} (hpos : T.pos = id)
    (o : Outcome RuntimeError Value) :
    T.outcome (Value.relocate T.pos) o = o.mapMachine T.machine := by
  cases o with
  | done v m =>
    show Outcome.done (v.relocate T.pos) (T.machine m) = .done v (T.machine m)
    rw [hpos, Value.relocate_id]
  | failed e m =>
    show Outcome.failed ⟨e.cause, T.pos e.pos⟩ (T.machine m) = .failed e (T.machine m)
    rw [hpos]
    rfl
  | unfinished => rfl

end Transport

namespace Eval

variable {R : Region} {I : Invariant R} {T : Transport I} {w : I.World}

/-! ## Evaluations that carry a transport through -/

/-- On the changed machine `y` does what `x` does, with the change made afterwards. -/
def Carries {α : Type} (T : Transport I) (w : I.World) (g : α → α) (x y : Eval α) : Prop :=
  ∀ m : Machine, I.store w m.store → y (T.machine m) = T.outcome g (x m)

section Rules

variable {α β : Type} {g : α → α} {g' : β → β}

theorem carries_pure (a : α) : Carries T w g (pure a) (pure (g a)) :=
  fun _ _ => rfl

/-- The same error is reported at the changed position. -/
theorem carries_fail (cause : RuntimeError.Cause) (pos : Position) :
    Carries T w g (fail cause pos) (fail cause (T.pos pos)) :=
  fun _ _ => rfl

/-- Neither side has a machine to change. -/
theorem carries_unfinished : Carries T w g unfinished unfinished :=
  fun _ _ => rfl

/-- A sequence carries the change through if both parts do, the second one wherever the first one
may lead. -/
theorem carries_bind {x y : Eval α} {f f' : α → Eval β} {post : I.World → α → Prop}
    (hkeeps : Keeps I w x post) (hx : Carries T w g x y)
    (hf : ∀ a w', I.Later w w' → post w' a → Carries T w' g' (f a) (f' (g a))) :
    Carries T w g' (x >>= f) (y >>= f') := by
  intro m hm
  have hend := hkeeps m hm
  rw [bind_apply, bind_apply, hx m hm]
  cases hxm : x m with
  | done a m₁ =>
    rw [hxm] at hend
    obtain ⟨w', hw, hm₁, ha⟩ := hend
    exact hf a w' hw ha m₁ hm₁
  | failed e m₁ | unfinished => rfl

/-- A result that is computed without the machine is the same on both sides, if the change leaves it
alone. -/
theorem carries_ofExcept {result : Except RuntimeError.Cause α} (pos : Position)
    (h : ∀ a, result = .ok a → g a = a) :
    Carries T w g (ofExcept pos result) (ofExcept (T.pos pos) result) := by
  cases result with
  | ok a =>
    intro m _
    show Outcome.done a (T.machine m) = .done (g a) (T.machine m)
    rw [h a rfl]
  | error cause => exact carries_fail cause pos

/-- The depth is counted alike on both sides. -/
theorem carries_deeper {x y : Eval α} (hx : Carries T w g x y) :
    Carries T w g (deeper x) (deeper y) := by
  intro m hm
  have hinner : y { T.machine m with depth := (T.machine m).depth + 1 } =
      T.outcome g (x { m with depth := m.depth + 1 }) := hx { m with depth := m.depth + 1 } hm
  simp only [deeper, hinner]
  cases x { m with depth := m.depth + 1 } <;> rfl

end Rules

/-! ## Primitives -/

section Primitives

variable {scope : ScopeId} {x : String} {v : Value} {pos : Position}

/-- The changed store binds the name to the changed value. -/
theorem carries_lookup (hscope : I.scope w scope) (hx : I.naming.name x) :
    Carries T w (Value.relocate T.pos) (lookup scope x pos) (lookup scope x (T.pos pos)) := by
  intro m hm
  have hfind : (T.machine m).store.find? scope x = (m.store.find? scope x).map (.relocate T.pos) :=
    T.find? hm hscope hx
  rw [lookup, lookup, Store.lookup, Store.lookup, hfind]
  cases m.store.find? scope x <;> rfl

/-- To declare in the changed store is to declare and to change the store. -/
theorem carries_declare (constant : Bool) (hscope : I.scope w scope) (hx : I.naming.name x)
    (hv : I.value w v) :
    Carries T w (Value.relocate T.pos) (declare scope x v constant pos)
      (declare scope x (v.relocate T.pos) constant (T.pos pos)) := by
  intro m hm
  have hdeclare : (T.machine m).store.declare scope x (v.relocate T.pos) constant =
      (m.store.declare scope x v constant).map T.store := T.declare hm hscope hx hv
  rw [declare, declare, hdeclare]
  cases m.store.declare scope x v constant <;> rfl

/-- To assign in the changed store is to assign and to change the store. -/
theorem carries_assign (hscope : I.scope w scope) (hx : I.naming.name x) (hv : I.value w v) :
    Carries T w (Value.relocate T.pos) (assign scope x v pos)
      (assign scope x (v.relocate T.pos) (T.pos pos)) := by
  intro m hm
  have hassign : (T.machine m).store.assign scope x (v.relocate T.pos) =
      (m.store.assign scope x v).map T.store := T.assign hm hscope hx hv
  rw [assign, assign, hassign]
  cases m.store.assign scope x v <;> rfl

/-- Parameters are declared in turn, in worlds that follow one another. -/
theorem carries_declareAll (constant : Bool) {params : List String} {arguments : List Value}
    (hscope : I.scope w scope) (hparams : ∀ y ∈ params, I.naming.name y)
    (harguments : ∀ v ∈ arguments, I.value w v) (hpos : R.pos pos) :
    Carries T w id (declareAll scope constant pos (params.zip arguments))
      (declareAll scope constant (T.pos pos)
        (params.zip (arguments.map (Value.relocate T.pos)))) := by
  induction params generalizing w arguments with
  | nil => exact carries_pure ()
  | cons x params ih =>
    cases arguments with
    | nil => exact carries_pure ()
    | cons v arguments =>
      rw [List.forall_mem_cons] at hparams harguments
      refine carries_bind (keeps_declare constant hscope hparams.1 harguments.1 hpos)
        (carries_declare constant hscope hparams.1 harguments.1) fun _ w' hw _ => ?_
      exact ih (I.scope_later hw hscope) hparams.2
        fun v' hv' => I.value_later hw (harguments.2 v' hv')

/-- Both sides give the new scope the same number. -/
theorem carries_newScope {parent : Option ScopeId} (hparent : ∀ p ∈ parent, I.scope w p) :
    Carries T w id (newScope parent) (newScope parent) := by
  intro m hm
  show Outcome.done (T.store m.store).nextId
      { T.machine m with store := (T.store m.store).push parent } = _
  rw [T.nextId hm, T.push hm hparent]
  rfl

/-- The changed sink takes the line at its changed position, or refuses it in the same way. -/
theorem carries_print (text : String) (pos : Position) :
    Carries T w id (print text pos) (print text (T.pos pos)) := by
  intro m _
  have hprint : (T.machine m).sink.print ⟨text, T.pos pos⟩ =
      (m.sink.print ⟨text, pos⟩).map id T.sink := T.print m.sink text pos
  rw [print, print, hprint]
  rcases m.sink.print ⟨text, pos⟩ with ⟨_ | fault, sink⟩ <;> rfl

theorem carries_claimDepth (limit : Nat) (pos : Position) :
    Carries T w id (claimDepth limit pos) (claimDepth limit (T.pos pos)) := by
  intro m _
  rw [claimDepth, claimDepth]
  show (if m.depth < limit then _ else _) = T.outcome id (if m.depth < limit then _ else _)
  by_cases hfree : m.depth < limit
  · rw [if_pos hfree, if_pos hfree]
    rfl
  · rw [if_neg hfree, if_neg hfree]
    rfl

end Primitives

section Natives

variable {arguments : List Value} {pos : Position}

/-- Host functions tell changed arguments from others in no way; they print, compare truth values
and fail. -/
theorem carries_run (f : Native) (hpos : R.pos pos) :
    Carries T w (Value.relocate T.pos) (f.run arguments pos)
      (f.run (arguments.map (Value.relocate T.pos)) (T.pos pos)) := by
  unfold Native.run
  cases f.kind with
  | println =>
    cases f.channel with
    | console =>
      simp only [Native.lineOf_relocate]
      exact carries_bind (keeps_print _ hpos) (carries_print _ pos) fun _ _ _ _ => carries_pure _
    | discarded => exact carries_pure _
  | assert =>
    match arguments with
    | [v] =>
      simp only [List.map_cons, List.map_nil, Value.asBool_relocate]
      have hbool : Keeps I w (ofExcept pos (v.asBool NativeKind.assert.name)) fun _ _ => True :=
        keeps_ofExcept hpos fun _ _ => trivial
      have hcarries : Carries T w id (ofExcept pos (v.asBool NativeKind.assert.name))
          (ofExcept (T.pos pos) (v.asBool NativeKind.assert.name)) :=
        carries_ofExcept pos fun _ _ => rfl
      refine carries_bind hbool hcarries fun holds _ _ _ => ?_
      cases holds with
      | true => exact carries_pure v
      | false => exact carries_fail _ pos
    | [] => exact carries_fail _ pos
    | _ :: _ :: vs =>
      simp only [List.map_cons, List.length_cons, List.length_map]
      exact carries_fail _ pos

/-- The number of arguments does not change. -/
theorem carries_native (f : Native) (hpos : R.pos pos) :
    Carries T w (Value.relocate T.pos) (f.call arguments pos)
      (f.call (arguments.map (Value.relocate T.pos)) (T.pos pos)) := by
  unfold Native.call
  cases f.kind.arity? with
  | none => exact carries_run f hpos
  | some arity =>
    simp only [List.length_map]
    by_cases harity : arity = arguments.length
    · simp only [if_pos harity]
      exact carries_run f hpos
    · simp only [if_neg harity]
      exact carries_fail _ pos

end Natives

/-! ## The evaluator -/

/-- The evaluator carries a change through with an amount of fuel. -/
structure CarriesWith (T : Transport I) (limit fuel : Nat) : Prop where
  expr : ∀ {w : I.World} {scope : ScopeId} {e : Expr}, I.scope w scope → R.expr e →
    Carries T w (Value.relocate T.pos) (evalExpr limit fuel scope e)
      (evalExpr limit fuel scope (e.relocate T.pos))
  arguments : ∀ {w : I.World} {scope : ScopeId} {es : List Expr}, I.scope w scope →
    (∀ e ∈ es, R.expr e) →
    Carries T w (List.map (Value.relocate T.pos)) (evalArguments limit fuel scope es)
      (evalArguments limit fuel scope (es.map (Expr.relocate T.pos)))
  stmt : ∀ {w : I.World} {scope : ScopeId} {s : Stmt}, I.scope w scope → R.stmt s →
    Carries T w (Value.relocate T.pos) (evalStmt limit fuel scope s)
      (evalStmt limit fuel scope (s.relocate T.pos))
  block : ∀ {w : I.World} {scope : ScopeId} {ss : List Stmt} {last : Value}, I.scope w scope →
    (∀ s ∈ ss, R.stmt s) →
    Carries T w (Value.relocate T.pos) (evalBlock limit fuel scope ss last)
      (evalBlock limit fuel scope (ss.map (Stmt.relocate T.pos)) (last.relocate T.pos))
  loop : ∀ {w : I.World} {scope : ScopeId} {ss : List Stmt} (count : Nat) {last : Value},
    I.scope w scope → (∀ s ∈ ss, R.stmt s) →
    Carries T w (Value.relocate T.pos) (evalLoop limit fuel scope ss count last)
      (evalLoop limit fuel scope (ss.map (Stmt.relocate T.pos)) count (last.relocate T.pos))
  whileLoop : ∀ {w : I.World} {scope : ScopeId} {condition : Expr} {ss : List Stmt} {last : Value},
    I.scope w scope → R.expr condition → (∀ s ∈ ss, R.stmt s) →
    Carries T w (Value.relocate T.pos) (evalWhile limit fuel scope condition ss last)
      (evalWhile limit fuel scope (condition.relocate T.pos) (ss.map (Stmt.relocate T.pos))
        (last.relocate T.pos))
  call : ∀ {w : I.World} {f : Function} {arguments : List Value} {pos : Position},
    I.value w (.function f) → (∀ v ∈ arguments, I.value w v) → R.pos pos →
    Carries T w (Value.relocate T.pos) (callFunction limit fuel f arguments pos)
      (callFunction limit fuel { f with body := Program.relocate T.pos f.body }
        (arguments.map (Value.relocate T.pos)) (T.pos pos))

theorem carriesWith_zero (T : Transport I) (limit : Nat) : CarriesWith T limit 0 where
  expr _ _ := by
    rw [evalExpr, evalExpr]
    exact carries_unfinished
  arguments _ _ := by
    rw [evalArguments, evalArguments]
    exact carries_unfinished
  stmt _ _ := by
    rw [evalStmt, evalStmt]
    exact carries_unfinished
  block _ _ := by
    rw [evalBlock, evalBlock]
    exact carries_unfinished
  loop _ _ _ _ := by
    rw [evalLoop, evalLoop]
    exact carries_unfinished
  whileLoop _ _ _ := by
    rw [evalWhile, evalWhile]
    exact carries_unfinished
  call _ _ _ := by
    rw [callFunction, callFunction]
    exact carries_unfinished

section Step

variable {limit fuel : Nat} (ih : CarriesWith T limit fuel) {scope : ScopeId}

include ih

/-- One case for each kind of expression. After the first operand the world is a later one, in which
scope and values are still good. -/
theorem carries_evalExpr {e : Expr} (hscope : I.scope w scope) (he : R.expr e) :
    Carries T w (Value.relocate T.pos) (evalExpr limit (fuel + 1) scope e)
      (evalExpr limit (fuel + 1) scope (e.relocate T.pos)) := by
  have hpos := R.expr_pos he
  have hkeeps := keepsWith I limit fuel
  cases e with
  | number x pos =>
    rw [Expr.relocate, evalExpr, evalExpr]
    exact carries_pure _
  | bool b pos =>
    rw [Expr.relocate, evalExpr, evalExpr]
    exact carries_pure _
  | identifier name pos =>
    rw [Expr.relocate, evalExpr, evalExpr]
    exact carries_lookup hscope (I.naming.identifier he)
  | assign target value pos =>
    obtain ⟨htarget, hvalue⟩ := R.assign he
    cases target with
    | identifier name _ =>
      rw [Expr.relocate, Expr.relocate, evalExpr, evalExpr]
      refine carries_bind (hkeeps.expr hscope hvalue) (ih.expr hscope hvalue) fun v w' hw hv => ?_
      exact carries_assign (I.scope_later hw hscope) (I.naming.identifier htarget) hv
    | _ =>
      simp only [Expr.relocate, evalExpr]
      exact carries_fail _ _
  | not operand pos =>
    have hoperand := R.not he
    rw [Expr.relocate, evalExpr, evalExpr]
    refine carries_bind (hkeeps.expr hscope hoperand) (ih.expr hscope hoperand) fun v _ _ _ => ?_
    rw [Value.negate_relocate]
    exact carries_ofExcept pos fun _ hok => Value.relocate_of_below _ (Value.negate_below hok 0)
  | binary op left right pos =>
    obtain ⟨hleft, hright⟩ := R.binary he
    rw [Expr.relocate, evalExpr, evalExpr]
    refine carries_bind (hkeeps.expr hscope hleft) (ih.expr hscope hleft) fun l w₁ hw₁ _ => ?_
    have hscope₁ := I.scope_later hw₁ hscope
    refine carries_bind (hkeeps.expr hscope₁ hright) (ih.expr hscope₁ hright) fun r _ _ _ => ?_
    rw [Operator.apply_relocate]
    exact carries_ofExcept pos fun _ hok => Value.relocate_of_below _ (Operator.apply_below hok 0)
  | call callee arguments pos =>
    obtain ⟨hcallee, harguments⟩ := R.call he
    rw [Expr.relocate, Expr.relocateAll_eq_map, evalExpr, evalExpr]
    refine carries_bind (hkeeps.expr hscope hcallee) (ih.expr hscope hcallee) fun f w₁ hw₁ hf => ?_
    have hscope₁ := I.scope_later hw₁ hscope
    refine carries_bind (hkeeps.arguments hscope₁ harguments) (ih.arguments hscope₁ harguments)
      fun vs w₂ hw₂ hvs => ?_
    cases f with
    | function f => exact ih.call (I.value_later hw₂ hf) hvs hpos
    | native f => exact carries_native f hpos
    | _ => exact carries_fail _ pos

/-- All arguments are changed, each in the world that the one before has led to. -/
theorem carries_evalArguments {es : List Expr} (hscope : I.scope w scope)
    (hes : ∀ e ∈ es, R.expr e) :
    Carries T w (List.map (Value.relocate T.pos)) (evalArguments limit (fuel + 1) scope es)
      (evalArguments limit (fuel + 1) scope (es.map (Expr.relocate T.pos))) := by
  have hkeeps := keepsWith I limit fuel
  cases es with
  | nil =>
    rw [List.map_nil, evalArguments]
    exact carries_pure []
  | cons e es =>
    rw [List.forall_mem_cons] at hes
    rw [List.map_cons, evalArguments, evalArguments]
    refine carries_bind (hkeeps.expr hscope hes.1) (ih.expr hscope hes.1) fun v w₁ hw₁ _ => ?_
    have hscope₁ := I.scope_later hw₁ hscope
    refine carries_bind (hkeeps.arguments hscope₁ hes.2) (ih.arguments hscope₁ hes.2)
      fun vs _ _ _ => ?_
    exact carries_pure (v :: vs)

/-- One case for each kind of statement. A declared function has its body changed with it. -/
theorem carries_evalStmt {s : Stmt} (hscope : I.scope w scope) (hs : R.stmt s) :
    Carries T w (Value.relocate T.pos) (evalStmt limit (fuel + 1) scope s)
      (evalStmt limit (fuel + 1) scope (s.relocate T.pos)) := by
  have hkeeps := keepsWith I limit fuel
  cases s with
  | declare name value constant pos =>
    have hname := I.naming.declare hs
    cases value with
    | none =>
      rw [Stmt.relocate, Option.map_none, evalStmt, evalStmt]
      exact carries_declare constant hscope hname (I.plain trivial)
    | some value =>
      have hvalue := R.declare hs
      rw [Stmt.relocate, Option.map_some, evalStmt, evalStmt]
      refine carries_bind (hkeeps.expr hscope hvalue) (ih.expr hscope hvalue) fun v w' hw hv => ?_
      exact carries_declare constant (I.scope_later hw hscope) hname hv
  | function name params body pos =>
    obtain ⟨hname, hparams⟩ := I.naming.function hs
    rw [Stmt.relocate, Stmt.relocateAll_eq_map, evalStmt, evalStmt]
    exact carries_declare true hscope hname (I.function.mpr ⟨hscope, R.function hs, hparams⟩)
  | loop count body pos =>
    rw [Stmt.relocate, Stmt.relocateAll_eq_map, evalStmt, evalStmt]
    exact ih.loop count hscope (R.loop hs)
  | whileLoop condition body pos =>
    rw [Stmt.relocate, Stmt.relocateAll_eq_map, evalStmt, evalStmt]
    exact ih.whileLoop hscope (R.whileLoop hs).1 (R.whileLoop hs).2
  | expr e =>
    rw [Stmt.relocate, evalStmt, evalStmt]
    exact ih.expr hscope (R.value hs)

/-- The value so far is changed along with the statements that are left. -/
theorem carries_evalBlock {ss : List Stmt} {last : Value} (hscope : I.scope w scope)
    (hss : ∀ s ∈ ss, R.stmt s) :
    Carries T w (Value.relocate T.pos) (evalBlock limit (fuel + 1) scope ss last)
      (evalBlock limit (fuel + 1) scope (ss.map (Stmt.relocate T.pos)) (last.relocate T.pos)) := by
  have hkeeps := keepsWith I limit fuel
  cases ss with
  | nil =>
    rw [List.map_nil, evalBlock, evalBlock]
    exact carries_pure last
  | cons s ss =>
    rw [List.forall_mem_cons] at hss
    rw [List.map_cons, evalBlock, evalBlock]
    refine carries_bind (hkeeps.stmt hscope hss.1) (ih.stmt hscope hss.1) fun v w' hw _ => ?_
    exact ih.block (I.scope_later hw hscope) hss.2

theorem carries_evalLoop {ss : List Stmt} (count : Nat) {last : Value} (hscope : I.scope w scope)
    (hss : ∀ s ∈ ss, R.stmt s) :
    Carries T w (Value.relocate T.pos) (evalLoop limit (fuel + 1) scope ss count last)
      (evalLoop limit (fuel + 1) scope (ss.map (Stmt.relocate T.pos)) count
        (last.relocate T.pos)) := by
  have hkeeps := keepsWith I limit fuel
  cases count with
  | zero =>
    rw [evalLoop, evalLoop]
    exact carries_pure last
  | succ count =>
    rw [evalLoop, evalLoop]
    refine carries_bind (hkeeps.block hscope hss (I.plain trivial)) (ih.block hscope hss)
      fun v w' hw _ => ?_
    exact ih.loop count (I.scope_later hw hscope) hss

/-- The condition decides alike on both sides, as truth values have no positions. -/
theorem carries_evalWhile {condition : Expr} {ss : List Stmt} {last : Value}
    (hscope : I.scope w scope) (hcondition : R.expr condition) (hss : ∀ s ∈ ss, R.stmt s) :
    Carries T w (Value.relocate T.pos) (evalWhile limit (fuel + 1) scope condition ss last)
      (evalWhile limit (fuel + 1) scope (condition.relocate T.pos) (ss.map (Stmt.relocate T.pos))
        (last.relocate T.pos)) := by
  have hkeeps := keepsWith I limit fuel
  rw [evalWhile, evalWhile]
  refine carries_bind (hkeeps.expr hscope hcondition) (ih.expr hscope hcondition)
    fun v w₁ hw₁ _ => ?_
  have hscope₁ := I.scope_later hw₁ hscope
  cases v with
  | bool b =>
    cases b with
    | true =>
      refine carries_bind (hkeeps.block hscope₁ hss (I.plain trivial)) (ih.block hscope₁ hss)
        fun u w₂ hw₂ _ => ?_
      exact ih.whileLoop (I.scope_later hw₂ hscope₁) hcondition hss
    | false => exact carries_pure last
  | _ => exact carries_pure last

/-- The function and its arguments are changed, and the body is run in a new scope below the
closure. -/
theorem carries_callFunction {f : Function} {arguments : List Value} {pos : Position}
    (hf : I.value w (.function f)) (harguments : ∀ v ∈ arguments, I.value w v) (hpos : R.pos pos) :
    Carries T w (Value.relocate T.pos) (callFunction limit (fuel + 1) f arguments pos)
      (callFunction limit (fuel + 1) { f with body := Program.relocate T.pos f.body }
        (arguments.map (Value.relocate T.pos)) (T.pos pos)) := by
  obtain ⟨hclosure, hbody, hparams⟩ := I.function.mp hf
  rw [callFunction, callFunction]
  simp only [List.length_map]
  by_cases harity : arguments.length = f.params.length
  · simp only [if_pos harity]
    refine carries_bind (keeps_claimDepth limit hpos) (carries_claimDepth limit pos)
      fun _ w₁ hw₁ _ => ?_
    have hparent : ∀ p ∈ some f.closure, I.scope w₁ p := by
      rintro p ⟨⟩
      exact I.scope_later hw₁ hclosure
    refine carries_bind (keeps_newScope hparent) (carries_newScope hparent)
      fun scope w₂ hw₂ hscope => ?_
    have harguments₂ : ∀ v ∈ arguments, I.value w₂ v :=
      fun v hv => I.value_later (I.later_trans hw₁ hw₂) (harguments v hv)
    have hentries : ∀ entry ∈ f.params.zip arguments,
        I.naming.name entry.1 ∧ I.value w₂ entry.2 := by
      intro entry hentry
      obtain ⟨hparam, hargument⟩ := List.of_mem_zip hentry
      exact ⟨hparams entry.1 hparam, harguments₂ entry.2 hargument⟩
    refine carries_bind (keeps_declareAll false hscope hentries hpos)
      (carries_declareAll false hscope hparams harguments₂ hpos) fun _ w₃ hw₃ _ => ?_
    exact carries_deeper (ih.block (I.scope_later hw₃ hscope) (R.stmt_of_body hbody))
  · simp only [if_neg harity]
    exact carries_fail _ pos

end Step

/-- The evaluator carries every transport through, however much fuel it has. -/
theorem carriesWith (T : Transport I) (limit fuel : Nat) : CarriesWith T limit fuel := by
  induction fuel with
  | zero => exact carriesWith_zero T limit
  | succ fuel ih =>
    exact ⟨carries_evalExpr ih, carries_evalArguments ih, carries_evalStmt ih, carries_evalBlock ih,
      carries_evalLoop ih, carries_evalWhile ih, carries_callFunction ih⟩

end Eval

/-! ## Changes scope by scope -/

/-- A scope with all the positions in its values changed. -/
def Scope.relocate (f : Position → Position) (s : Scope) : Scope :=
  { s with bindings := s.bindings.map fun entry => (entry.1, entry.2.relocate f) }

namespace Scope

variable (f : Position → Position)

/-- Names are looked up in a changed scope as in the scope. -/
theorem find?_relocate (s : Scope) (x : String) :
    (s.relocate f).find? x = (s.find? x).map (Binding.relocate f) := by
  obtain ⟨entries, parent⟩ := s
  simp only [find?, relocate]
  induction entries with
  | nil => rfl
  | cons entry entries ih =>
    obtain ⟨y, b⟩ := entry
    rw [List.map_cons, lookup_cons_ite, lookup_cons_ite, ih]
    by_cases hy : x = y
    · rw [if_pos hy, if_pos hy, Option.map_some]
    · rw [if_neg hy, if_neg hy]

theorem relocate_add (s : Scope) (x : String) (b : Binding) :
    (s.relocate f).add x (b.relocate f) = (s.add x b).relocate f := rfl

/-- A changed value is put into the changed scope. -/
theorem relocate_setValue (s : Scope) (x : String) (v : Value) :
    (s.relocate f).setValue x (v.relocate f) = (s.setValue x v).relocate f := by
  simp only [relocate, setValue, List.map_map]
  congr 1
  refine List.map_congr_left fun entry _ => ?_
  simp only [Function.comp_apply]
  split <;> rfl

theorem relocate_id (s : Scope) : s.relocate id = s := by
  have hentries : s.bindings.map (fun entry => (entry.1, entry.2.relocate id)) = s.bindings := by
    refine (List.map_congr_left fun entry _ => ?_).trans (List.map_id _)
    rw [entry.2.relocate_id, id]
  rw [relocate, hentries]

end Scope

/-- Among the given scopes, which the way outwards does not leave, the second store has the parents
of the first one and, under the given names, its bindings with the positions in their values
changed. -/
structure Store.Mirrors (f : Position → Position) (P : ScopeId → Prop) (N : String → Prop)
    (s s' : Store) : Prop where
  outward : ∀ id p, P id → s.parent? id = some p → P p
  parent? : ∀ id, P id → s'.parent? id = s.parent? id
  local? : ∀ id x, P id → N x → s'.local? id x = (s.local? id x).map (Binding.relocate f)

/-- Stores mirror each other if their scopes do one by one, on a set of scopes that leads outwards
to itself. -/
theorem Store.mirrors_of_scope? {f : Position → Position} {P : ScopeId → Prop} {N : String → Prop}
    {s s' : Store} (houtward : ∀ id p, P id → s.parent? id = some p → P p)
    (hscope : ∀ id, P id → s'.scope? id = (s.scope? id).map (Scope.relocate f)) :
    s.Mirrors f P N s' where
  outward := houtward
  parent? id hid := by
    rw [Store.parent?, Store.parent?, hscope id hid]
    cases s.scope? id <;> rfl
  local? id x hid _ := by
    rw [Store.local?, Store.local?, hscope id hid]
    cases s.scope? id with
    | none => rfl
    | some scope => exact scope.find?_relocate f x

/-- A sink and its positions may be kept as they are. -/
theorem Sink.print_id (s : Sink) (text : String) (p : Position) :
    (id s).print ⟨text, id p⟩ = (s.print ⟨text, p⟩).map id id := rfl

/-- A store with the same parents and bindings mirrors the other one if positions are kept. -/
theorem Store.mirrors_of_eq {P : ScopeId → Prop} {N : String → Prop} {s s' : Store}
    (houtward : ∀ i p, P i → s.parent? i = some p → P p)
    (hparent : ∀ i, P i → s'.parent? i = s.parent? i)
    (hlocal : ∀ i x, P i → N x → s'.local? i x = s.local? i x) : s.Mirrors id P N s' where
  outward := houtward
  parent? := hparent
  local? i x hi hx := by
    have hsame : Binding.relocate id = id := funext Binding.relocate_id
    rw [hsame, Option.map_id]
    exact hlocal i x hi hx

namespace Store.Mirrors

variable {f : Position → Position} {P : ScopeId → Prop} {N : String → Prop} {s s' : Store}
  {id : ScopeId} {x : String} (h : s.Mirrors f P N s') (hx : N x)

include h hx

theorem binds (hid : P id) : s'.binds id x = s.binds id x := by
  rw [Store.binds, Store.binds, h.local? id x hid hx, Option.isSome_map]

theorem isConstant (hid : P id) : s'.isConstant id x = s.isConstant id x := by
  rw [Store.isConstant, Store.isConstant, h.local? id x hid hx]
  cases s.local? id x <;> rfl

/-- The search for a name ends at the same scope in both stores. -/
theorem resolve? (hid : P id) : s'.resolve? x id = s.resolve? x id :=
  Store.resolve?_congr h.outward (fun _ => h.binds hx) h.parent? hid

/-- The name is bound to the changed value. -/
theorem find? (hid : P id) : s'.find? id x = (s.find? id x).map (Binding.relocate f) := by
  rw [Store.find?, Store.find?, h.resolve? hx hid]
  cases howner : s.resolve? x id with
  | none => rfl
  | some owner => exact h.local? owner x (mem_of_resolve? h.outward hid howner) hx

end Store.Mirrors

/-- The transport that a change of single scopes gives. -/
def Transport.ofScopes {R : Region} {I : Invariant R} (pos : Position → Position)
    (store : Store → Store) (sink : Sink → Sink)
    (mirrors : ∀ {w s}, I.store w s → s.Mirrors pos (I.scope w) I.naming.name (store s))
    (nextId : ∀ s, (store s).nextId = s.nextId)
    (push : ∀ {w s parent}, I.store w s → (store s).push parent = store (s.push parent))
    (add : ∀ {w s id x} (b : Binding), I.store w s → I.scope w id → I.naming.name x →
      (store s).update id (·.add x (b.relocate pos)) = store (s.update id (·.add x b)))
    (setValue : ∀ {w s id x} (v : Value), I.store w s → I.scope w id → I.naming.name x →
      (store s).update id (·.setValue x (v.relocate pos)) = store (s.update id (·.setValue x v)))
    (print : ∀ s text p, (sink s).print ⟨text, pos p⟩ = (s.print ⟨text, p⟩).map id sink) :
    Transport I where
  pos := pos
  store := store
  sink := sink
  nextId _ := nextId _
  push hs _ := push hs
  find? hs hid hx := (mirrors hs).find? hx hid
  declare {w s id x v constant} hs hid hx _ := by
    rw [Store.declare, Store.declare, (mirrors hs).binds hx hid]
    by_cases hbinds : s.binds id x = true
    · rw [if_pos hbinds, if_pos hbinds]
      rfl
    · rw [if_neg hbinds, if_neg hbinds]
      exact congrArg Except.ok (add ⟨v, constant⟩ hs hid hx)
  assign {w s id x v} hs hid hx _ := by
    have hm := mirrors hs
    rw [Store.assign, Store.assign, hm.resolve? hx hid]
    cases howner : s.resolve? x id with
    | none => rfl
    | some owner =>
      have hown : I.scope w owner := Store.mem_of_resolve? hm.outward hid howner
      simp only [hm.isConstant hx hown]
      by_cases hconstant : s.isConstant owner x = true
      · rw [if_pos hconstant, if_pos hconstant]
        rfl
      · rw [if_neg hconstant, if_neg hconstant]
        exact congrArg Except.ok (setValue v hs hown hx)
  print := print

end Scriptlet
