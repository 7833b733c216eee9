import Scriptlet.Eval
import Scriptlet.Proofs.Eval.Outcome
import Scriptlet.Proofs.Store
import Scriptlet.Proofs.Syntax.Region

/-! # Invariants of running programs

An invariant says what is true of the store, and of the values and scopes that refer to it, while a
program from a region runs. What is true may change with the store, so an invariant is stated at a
world, and running a program leads to later worlds. If making scopes, declaring and assigning keep
the invariant, then the whole evaluator does, whether it succeeds or fails, and its errors stand at
positions of the region (`keepsWith`). `Keeps` says so of one evaluation; the evaluator follows by
induction on its fuel.
-/

namespace Scriptlet

/-- Conditions on stores, values and scopes that the changes of a store keep, as long as they keep
to a naming. -/
structure Invariant (R : Region) where
  naming : R.Naming := R.anyName
  World : Type
  /-- The worlds to which the changes of a store may lead. -/
  Later : World → World → Prop
  store : World → Store → Prop
  value : World → Value → Prop
  scope : World → ScopeId → Prop
  later_refl : ∀ w, Later w w
  later_trans : ∀ {w₁ w₂ w₃}, Later w₁ w₂ → Later w₂ w₃ → Later w₁ w₃
  value_later : ∀ {w w' v}, Later w w' → value w v → value w' v
  scope_later : ∀ {w w' id}, Later w w' → scope w id → scope w' id
  /-- Values that refer to no scope are in every world. -/
  plain : ∀ {w v}, v.Below 0 → value w v
  function : ∀ {w f}, value w (.function f) ↔
    scope w f.closure ∧ R.body f.body ∧ ∀ x ∈ f.params, naming.name x
  found : ∀ {w s id x b}, store w s → scope w id → naming.name x → s.find? id x = some b →
    value w b.value
  push : ∀ {w s parent}, store w s → (∀ p ∈ parent, scope w p) →
    ∃ w', Later w w' ∧ store w' (s.push parent) ∧ scope w' s.nextId
  declare : ∀ {w s s' id x v constant}, store w s → scope w id → naming.name x → value w v →
    s.declare id x v constant = .ok s' → ∃ w', Later w w' ∧ store w' s'
  assign : ∀ {w s s' id x v}, store w s → scope w id → naming.name x → value w v →
    s.assign id x v = .ok s' → ∃ w', Later w w' ∧ store w' s'

/-! ## Values that operators and the host give -/

/-- What an operator makes of numbers refers to no scope. -/
theorem Operator.onNumbers_below {op : Operator} {x y : Float} {v : Value}
    (h : op.onNumbers x y = .ok v) (n : Nat) : v.Below n := by
  cases op with
  | div =>
    rw [Operator.onNumbers] at h
    by_cases hzero : (y == 0.0) = true
    · rw [if_pos hzero] at h
      cases h
    · rw [if_neg hzero] at h
      cases h
      trivial
  | and | or => cases h
  | _ =>
    cases h
    trivial

/-- What an operator makes of truth values refers to no scope. -/
theorem Operator.onBools_below {op : Operator} {a b : Bool} {v : Value}
    (h : op.onBools a b = .ok v) (n : Nat) : v.Below n := by
  cases op with
  | and | or | equal | notEqual =>
    cases h
    trivial
  | _ => cases h

theorem Operator.onNils_below {op : Operator} {v : Value} (h : op.onNils = .ok v) (n : Nat) :
    v.Below n := by
  cases op with
  | equal | notEqual =>
    cases h
    trivial
  | _ => cases h

/-- Operators give values without a scope. -/
theorem Operator.apply_below {op : Operator} {l r v : Value} (h : op.apply l r = .ok v) (n : Nat) :
    v.Below n := by
  cases l <;> cases r <;> first | cases h | skip
  · exact Operator.onNils_below h n
  · exact Operator.onNumbers_below h n
  · exact Operator.onBools_below h n

/-- What negation gives refers to no scope. -/
theorem Value.negate_below {u v : Value} (h : u.negate = .ok v) (n : Nat) : v.Below n := by
  rw [Value.negate] at h
  cases hbool : u.asBool "'!'" with
  | ok b =>
    simp only [hbool] at h
    cases h
    trivial
  | error cause =>
    simp only [hbool] at h
    cases h

/-- What the host provides refers to no scope of the program. -/
theorem Native.bindings_below (scope : ScopeId) (channel : Channel) (n : Nat) :
    ∀ entry ∈ Native.bindings scope channel, entry.2.Below n := by
  intro entry hentry
  rcases List.mem_append.mp hentry with hconstant | hfunction
  · simp only [Native.constants, List.mem_cons, List.not_mem_nil, or_false] at hconstant
    rcases hconstant with rfl | rfl | rfl <;> trivial
  · obtain ⟨kind, -, rfl⟩ := List.mem_map.mp hfunction
    trivial

namespace Eval

variable {R : Region} {I : Invariant R} {w : I.World}

/-! ## Evaluations that keep an invariant -/

/-- How an evaluation may end: in a later world, with a value that satisfies the condition or with
an error at a position of the region. -/
def EndsLater {α : Type} (I : Invariant R) (w : I.World) (post : I.World → α → Prop) :
    Outcome RuntimeError α → Prop
  | .done a m => ∃ w', I.Later w w' ∧ I.store w' m.store ∧ post w' a
  | .failed e m => ∃ w', I.Later w w' ∧ I.store w' m.store ∧ R.pos e.pos
  | .unfinished => True

/-- From every store of the world an evaluation ends in a later one. -/
def Keeps {α : Type} (I : Invariant R) (w : I.World) (x : Eval α) (post : I.World → α → Prop) :
    Prop :=
  ∀ m : Machine, I.store w m.store → EndsLater I w post (x m)

section Rules

variable {α β : Type} {post : I.World → α → Prop} {post' : I.World → β → Prop}

/-- An evaluation that ends in a world later than a later one ends in a later one. -/
theorem EndsLater.mono {w' : I.World} {o : Outcome RuntimeError α} (hw : I.Later w w')
    (h : EndsLater I w' post o) : EndsLater I w post o := by
  cases o with
  | done a m | failed e m =>
    obtain ⟨w'', hw', hend⟩ := h
    exact ⟨w'', I.later_trans hw hw', hend⟩
  | unfinished => trivial

/-- However it ends, a kept evaluation leaves a store of a later world. -/
theorem Keeps.store_of_endsIn {x : Eval α} (hx : Keeps I w x post) {m m' : Machine}
    (hm : I.store w m.store) (hends : (x m).EndsIn m') : ∃ w', I.Later w w' ∧ I.store w' m'.store := by
  have hend := hx m hm
  cases hxm : x m with
  | done a m₁ | failed e m₁ =>
    rw [hxm] at hend hends
    cases hends
    obtain ⟨w', hw, hstore, -⟩ := hend
    exact ⟨w', hw, hstore⟩
  | unfinished =>
    rw [hxm] at hends
    cases hends

theorem keeps_pure {a : α} (h : post w a) : Keeps I w (pure a) post :=
  fun _ hm => ⟨w, I.later_refl w, hm, h⟩

/-- An error keeps the invariant if it stands in the region. -/
theorem keeps_fail (cause : RuntimeError.Cause) {pos : Position} (hpos : R.pos pos) :
    Keeps I w (fail cause pos : Eval α) post :=
  fun _ hm => ⟨w, I.later_refl w, hm, hpos⟩

/-- Running out of fuel keeps every invariant: no machine is left. -/
theorem keeps_unfinished : Keeps I w (unfinished : Eval α) post :=
  fun _ _ => trivial

/-- A sequence keeps the invariant if what follows does in the world there is by then. -/
theorem keeps_bind {x : Eval α} {f : α → Eval β} (hx : Keeps I w x post)
    (hf : ∀ a w', I.Later w w' → post w' a → Keeps I w' (f a) post') :
    Keeps I w (x >>= f) post' := by
  intro m hm
  have hfirst := hx m hm
  rw [bind_apply]
  cases hxm : x m with
  | done a m₁ =>
    rw [hxm] at hfirst
    obtain ⟨w', hw, hm₁, ha⟩ := hfirst
    exact (hf a w' hw ha m₁ hm₁).mono hw
  | failed e m₁ =>
    rw [hxm] at hfirst
    exact hfirst
  | unfinished => trivial

/-- A result that is computed without the machine needs to be judged only if there is one; an error
stands at the given position. -/
theorem keeps_ofExcept {result : Except RuntimeError.Cause α} {pos : Position} (hpos : R.pos pos)
    (h : ∀ a, result = .ok a → post w a) : Keeps I w (ofExcept pos result) post := by
  cases result with
  | ok a => exact keeps_pure (h a rfl)
  | error cause => exact keeps_fail cause hpos

/-- The depth of calls is no part of the store. -/
theorem keeps_deeper {x : Eval α} (hx : Keeps I w x post) : Keeps I w (deeper x) post := by
  intro m hm
  have hinner := hx { m with depth := m.depth + 1 } hm
  rw [deeper]
  cases hxm : x { m with depth := m.depth + 1 } with
  | done a m₁ | failed e m₁ =>
    rw [hxm] at hinner
    exact hinner
  | unfinished => trivial

end Rules

/-! ## Primitives -/

section Primitives

variable {scope : ScopeId} {x : String} {v : Value} {pos : Position}

/-- What a name leads to is a value of the invariant, and the error is at the name. -/
theorem keeps_lookup (hscope : I.scope w scope) (hx : I.naming.name x) (hpos : R.pos pos) :
    Keeps I w (lookup scope x pos) I.value := by
  intro m hm
  rw [lookup, Store.lookup]
  cases hfind : m.store.find? scope x with
  | none => exact ⟨w, I.later_refl w, hm, hpos⟩
  | some b => exact ⟨w, I.later_refl w, hm, I.found hm hscope hx hfind⟩

/-- Declaring a value of the invariant gives it back, in a later world. -/
theorem keeps_declare (constant : Bool) (hscope : I.scope w scope) (hx : I.naming.name x)
    (hv : I.value w v) (hpos : R.pos pos) :
    Keeps I w (declare scope x v constant pos) I.value := by
  intro m hm
  rw [declare]
  cases hdeclare : m.store.declare scope x v constant with
  | error cause => exact ⟨w, I.later_refl w, hm, hpos⟩
  | ok s =>
    obtain ⟨w', hw, hs⟩ := I.declare hm hscope hx hv hdeclare
    exact ⟨w', hw, hs, I.value_later hw hv⟩

/-- Assigning a value of the invariant gives it back, in a later world. -/
theorem keeps_assign (hscope : I.scope w scope) (hx : I.naming.name x) (hv : I.value w v)
    (hpos : R.pos pos) : Keeps I w (assign scope x v pos) I.value := by
  intro m hm
  rw [assign]
  cases hassign : m.store.assign scope x v with
  | error cause => exact ⟨w, I.later_refl w, hm, hpos⟩
  | ok s =>
    obtain ⟨w', hw, hs⟩ := I.assign hm hscope hx hv hassign
    exact ⟨w', hw, hs, I.value_later hw hv⟩

/-- Declarations in turn, by induction on the names: every later world still has the scope and the
values that are to be declared. -/
theorem keeps_declareAll (constant : Bool) {entries : List (String × Value)}
    (hscope : I.scope w scope)
    (hentries : ∀ entry ∈ entries, I.naming.name entry.1 ∧ I.value w entry.2) (hpos : R.pos pos) :
    Keeps I w (declareAll scope constant pos entries) (fun _ _ => True) := by
  induction entries generalizing w with
  | nil => exact keeps_pure trivial
  | cons entry entries ih =>
    rw [List.forall_mem_cons] at hentries
    obtain ⟨⟨hx, hv⟩, hrest⟩ := hentries
    refine keeps_bind (keeps_declare constant hscope hx hv hpos) fun _ w' hw _ => ?_
    exact ih (I.scope_later hw hscope) fun entry' hentry' =>
      ⟨(hrest entry' hentry').1, I.value_later hw (hrest entry' hentry').2⟩

/-- A scope that is made below a scope of the invariant belongs to it in a later world. -/
theorem keeps_newScope {parent : Option ScopeId} (hparent : ∀ p ∈ parent, I.scope w p) :
    Keeps I w (newScope parent) I.scope :=
  fun _ hm => I.push hm hparent

/-- Printing does not touch the store, and an error of the sink is at the call. -/
theorem keeps_print (text : String) (hpos : R.pos pos) :
    Keeps I w (print text pos) (fun _ _ => True) := by
  intro m hm
  rw [print]
  rcases m.sink.print ⟨text, pos⟩ with ⟨_ | fault, sink⟩
  · exact ⟨w, I.later_refl w, hm, trivial⟩
  · exact ⟨w, I.later_refl w, hm, hpos⟩

/-- The limit on depth is an error of the call. -/
theorem keeps_claimDepth (limit : Nat) (hpos : R.pos pos) :
    Keeps I w (claimDepth limit pos) (fun _ _ => True) := by
  intro m hm
  rw [claimDepth]
  by_cases hfree : m.depth < limit
  · rw [if_pos hfree]
    exact ⟨w, I.later_refl w, hm, trivial⟩
  · rw [if_neg hfree]
    exact ⟨w, I.later_refl w, hm, hpos⟩

end Primitives

section Natives

variable {arguments : List Value} {pos : Position}

/-- A host function gives one of its arguments or a value that refers to no scope. -/
theorem keeps_run (f : Native) (harguments : ∀ v ∈ arguments, I.value w v) (hpos : R.pos pos) :
    Keeps I w (f.run arguments pos) I.value := by
  unfold Native.run
  cases f.kind with
  | println =>
    cases f.channel with
    | console => exact keeps_bind (keeps_print _ hpos) fun _ _ _ _ => keeps_pure (I.plain trivial)
    | discarded => exact keeps_pure (I.plain trivial)
  | assert =>
    match arguments with
    | [v] =>
      refine keeps_bind (keeps_ofExcept hpos fun _ _ => trivial) fun holds w' hw (_ : True) => ?_
      by_cases hholds : holds = true
      · rw [if_pos hholds]
        exact keeps_pure (I.value_later hw (harguments v (List.mem_singleton_self v)))
      · rw [if_neg hholds]
        exact keeps_fail _ hpos
    | [] | _ :: _ :: _ => exact keeps_fail _ hpos

/-- The number of arguments is compared first, which can only add an error at the call. -/
theorem keeps_native (f : Native) (harguments : ∀ v ∈ arguments, I.value w v) (hpos : R.pos pos) :
    Keeps I w (f.call arguments pos) I.value := by
  rw [Native.call]
  cases f.kind.arity? with
  | none => exact keeps_run f harguments hpos
  | some arity =>
    show Keeps I w (if arity = arguments.length then _ else _) _
    by_cases harity : arity = arguments.length
    · rw [if_pos harity]
      exact keeps_run f harguments hpos
    · rw [if_neg harity]
      exact keeps_fail _ hpos

/-- The host declares what it provides at no position of a text. -/
theorem keeps_install {scope : ScopeId} (hscope : I.scope w scope) (channel : Channel)
    (hnames : ∀ entry ∈ Native.bindings scope channel, I.naming.name entry.1)
    (hpos : R.pos .nowhere) : Keeps I w (Native.install scope channel) (fun _ _ => True) := by
  refine keeps_declareAll true hscope (fun entry hentry => ⟨hnames entry hentry, ?_⟩) hpos
  exact I.plain (Native.bindings_below scope channel 0 entry hentry)

end Natives

/-! ## The evaluator -/

/-- The evaluator keeps an invariant with an amount of fuel. -/
structure KeepsWith (I : Invariant R) (limit fuel : Nat) : Prop where
  expr : ∀ {w : I.World} {scope : ScopeId} {e : Expr}, I.scope w scope → R.expr e →
    Keeps I w (evalExpr limit fuel scope e) I.value
  arguments : ∀ {w : I.World} {scope : ScopeId} {es : List Expr}, I.scope w scope →
    (∀ e ∈ es, R.expr e) →
    Keeps I w (evalArguments limit fuel scope es) (fun w vs => ∀ v ∈ vs, I.value w v)
  stmt : ∀ {w : I.World} {scope : ScopeId} {s : Stmt}, I.scope w scope → R.stmt s →
    Keeps I w (evalStmt limit fuel scope s) I.value
  block : ∀ {w : I.World} {scope : ScopeId} {ss : List Stmt} {last : Value}, I.scope w scope →
    (∀ s ∈ ss, R.stmt s) → I.value w last →
    Keeps I w (evalBlock limit fuel scope ss last) I.value
  loop : ∀ {w : I.World} {scope : ScopeId} {ss : List Stmt} (count : Nat) {last : Value},
    I.scope w scope → (∀ s ∈ ss, R.stmt s) → I.value w last →
    Keeps I w (evalLoop limit fuel scope ss count last) I.value
  whileLoop : ∀ {w : I.World} {scope : ScopeId} {condition : Expr} {ss : List Stmt} {last : Value},
    I.scope w scope → R.expr condition → (∀ s ∈ ss, R.stmt s) → I.value w last →
    Keeps I w (evalWhile limit fuel scope condition ss last) I.value
  call : ∀ {w : I.World} {f : Function} {arguments : List Value} {pos : Position},
    I.value w (.function f) → (∀ v ∈ arguments, I.value w v) → R.pos pos →
    Keeps I w (callFunction limit fuel f arguments pos) I.value

theorem keepsWith_zero (I : Invariant R) (limit : Nat) : KeepsWith I limit 0 where
  expr _ _ := by
    rw [evalExpr]
    exact keeps_unfinished
  arguments _ _ := by
    rw [evalArguments]
    exact keeps_unfinished
  stmt _ _ := by
    rw [evalStmt]
    exact keeps_unfinished
  block _ _ _ := by
    rw [evalBlock]
    exact keeps_unfinished
  loop _ _ _ _ _ := by
    rw [evalLoop]
    exact keeps_unfinished
  whileLoop _ _ _ _ := by
    rw [evalWhile]
    exact keeps_unfinished
  call _ _ _ := by
    rw [callFunction]
    exact keeps_unfinished

section Step

variable {limit fuel : Nat} (ih : KeepsWith I limit fuel) {scope : ScopeId}

include ih

/-- One case for each kind of expression. Operands are evaluated in the world that the one before
has led to. -/
theorem keeps_evalExpr {e : Expr} (hscope : I.scope w scope) (he : R.expr e) :
    Keeps I w (evalExpr limit (fuel + 1) scope e) I.value := by
  have hpos := R.expr_pos he
  cases e with
  | number x _ =>
    rw [evalExpr]
    exact keeps_pure (I.plain trivial)
  | bool b _ =>
    rw [evalExpr]
    exact keeps_pure (I.plain trivial)
  | identifier name pos =>
    rw [evalExpr]
    exact keeps_lookup hscope (I.naming.identifier he) hpos
  | assign target value pos =>
    obtain ⟨htarget, hvalue⟩ := R.assign he
    cases target with
    | identifier name _ =>
      rw [evalExpr]
      refine keeps_bind (ih.expr hscope hvalue) fun v w' hw hv => ?_
      exact keeps_assign (I.scope_later hw hscope) (I.naming.identifier htarget) hv hpos
    | _ =>
      simp only [evalExpr]
      exact keeps_fail _ (R.expr_pos htarget)
  | not operand pos =>
    rw [evalExpr]
    refine keeps_bind (ih.expr hscope (R.not he)) fun v _ _ _ => ?_
    exact keeps_ofExcept hpos fun _ hok => I.plain (Value.negate_below hok 0)
  | binary op left right pos =>
    obtain ⟨hleft, hright⟩ := R.binary he
    rw [evalExpr]
    refine keeps_bind (ih.expr hscope hleft) fun l w₁ hw₁ _ => ?_
    refine keeps_bind (ih.expr (I.scope_later hw₁ hscope) hright) fun r _ _ _ => ?_
    exact keeps_ofExcept hpos fun _ hok => I.plain (Operator.apply_below hok 0)
  | call callee arguments pos =>
    obtain ⟨hcallee, harguments⟩ := R.call he
    rw [evalExpr]
    refine keeps_bind (ih.expr hscope hcallee) fun f w₁ hw₁ hf => ?_
    have hscope₁ := I.scope_later hw₁ hscope
    refine keeps_bind (ih.arguments hscope₁ harguments) fun vs w₂ hw₂ hvs => ?_
    cases f with
    | function f => exact ih.call (I.value_later hw₂ hf) hvs hpos
    | native f => exact keeps_native f hvs hpos
    | _ => exact keeps_fail _ hpos

/-- All arguments are values of the world that the last of them has led to. -/
theorem keeps_evalArguments {es : List Expr} (hscope : I.scope w scope)
    (hes : ∀ e ∈ es, R.expr e) :
    Keeps I w (evalArguments limit (fuel + 1) scope es) (fun w vs => ∀ v ∈ vs, I.value w v) := by
  cases es with
  | nil =>
    rw [evalArguments]
    exact keeps_pure fun _ hv => absurd hv List.not_mem_nil
  | cons e es =>
    rw [List.forall_mem_cons] at hes
    rw [evalArguments]
    refine keeps_bind (ih.expr hscope hes.1) fun v w₁ hw₁ hv => ?_
    refine keeps_bind (ih.arguments (I.scope_later hw₁ hscope) hes.2) fun vs w₂ hw₂ hvs => ?_
    exact keeps_pure (List.forall_mem_cons.mpr ⟨I.value_later hw₂ hv, hvs⟩)

/-- One case for each kind of statement. A body is run in a scope that is made for it. -/
theorem keeps_evalStmt {s : Stmt} (hscope : I.scope w scope) (hs : R.stmt s) :
    Keeps I w (evalStmt limit (fuel + 1) scope s) I.value := by
  have hpos := R.stmt_pos hs
  cases s with
  | declare name value constant pos =>
    have hname := I.naming.declare hs
    cases value with
    | none =>
      rw [evalStmt]
      exact keeps_declare constant hscope hname (I.plain trivial) hpos
    | some value =>
      rw [evalStmt]
      refine keeps_bind (ih.expr hscope (R.declare hs)) fun v w' hw hv => ?_
      exact keeps_declare constant (I.scope_later hw hscope) hname hv hpos
  | function name params body pos =>
    obtain ⟨hname, hparams⟩ := I.naming.function hs
    rw [evalStmt]
    exact keeps_declare true hscope hname (I.function.mpr ⟨hscope, R.function hs, hparams⟩) hpos
  | loop count body pos =>
    rw [evalStmt]
    exact ih.loop count hscope (R.loop hs) (I.plain trivial)
  | whileLoop condition body pos =>
    rw [evalStmt]
    exact ih.whileLoop hscope (R.whileLoop hs).1 (R.whileLoop hs).2 (I.plain trivial)
  | expr e =>
    rw [evalStmt]
    exact ih.expr hscope (R.value hs)

theorem keeps_evalBlock {ss : List Stmt} {last : Value} (hscope : I.scope w scope)
    (hss : ∀ s ∈ ss, R.stmt s) (hlast : I.value w last) :
    Keeps I w (evalBlock limit (fuel + 1) scope ss last) I.value := by
  cases ss with
  | nil =>
    rw [evalBlock]
    exact keeps_pure hlast
  | cons s ss =>
    rw [List.forall_mem_cons] at hss
    rw [evalBlock]
    refine keeps_bind (ih.stmt hscope hss.1) fun v w' hw hv => ?_
    exact ih.block (I.scope_later hw hscope) hss.2 hv

theorem keeps_evalLoop {ss : List Stmt} (count : Nat) {last : Value} (hscope : I.scope w scope)
    (hss : ∀ s ∈ ss, R.stmt s) (hlast : I.value w last) :
    Keeps I w (evalLoop limit (fuel + 1) scope ss count last) I.value := by
  cases count with
  | zero =>
    rw [evalLoop]
    exact keeps_pure hlast
  | succ count =>
    rw [evalLoop]
    refine keeps_bind (ih.block hscope hss (I.plain trivial)) fun v w' hw hv => ?_
    exact ih.loop count (I.scope_later hw hscope) hss hv

/-- The condition is evaluated in the scope around the body, which later worlds keep. -/
theorem keeps_evalWhile {condition : Expr} {ss : List Stmt} {last : Value}
    (hscope : I.scope w scope) (hcondition : R.expr condition) (hss : ∀ s ∈ ss, R.stmt s)
    (hlast : I.value w last) :
    Keeps I w (evalWhile limit (fuel + 1) scope condition ss last) I.value := by
  rw [evalWhile]
  refine keeps_bind (ih.expr hscope hcondition) fun v w₁ hw₁ _ => ?_
  have hscope₁ := I.scope_later hw₁ hscope
  have hend : Keeps I w₁ (pure last : Eval Value) I.value := keeps_pure (I.value_later hw₁ hlast)
  cases v with
  | bool b =>
    cases b with
    | true =>
      refine keeps_bind (ih.block hscope₁ hss (I.plain trivial)) fun u w₂ hw₂ hu => ?_
      exact ih.whileLoop (I.scope_later hw₂ hscope₁) hcondition hss hu
    | false => exact hend
  | _ => exact hend

/-- The body is run in a scope below the closure, not below the scope of the caller, so nothing is
asked of the latter. -/
theorem keeps_callFunction {f : Function} {arguments : List Value} {pos : Position}
    (hf : I.value w (.function f)) (harguments : ∀ v ∈ arguments, I.value w v) (hpos : R.pos pos) :
    Keeps I w (callFunction limit (fuel + 1) f arguments pos) I.value := by
  obtain ⟨hclosure, hbody, hparams⟩ := I.function.mp hf
  rw [callFunction]
  by_cases harity : arguments.length = f.params.length
  · rw [if_pos harity]
    refine keeps_bind (keeps_claimDepth limit hpos) fun _ w₁ hw₁ _ => ?_
    -- the body runs in a scope below the closure, which exists as the function does
    have hparent : ∀ p ∈ some f.closure, I.scope w₁ p := by
      rintro p ⟨⟩
      exact I.scope_later hw₁ hclosure
    refine keeps_bind (keeps_newScope hparent) fun scope w₂ hw₂ hscope => ?_
    have hentries : ∀ entry ∈ f.params.zip arguments,
        I.naming.name entry.1 ∧ I.value w₂ entry.2 := by
      intro entry hentry
      obtain ⟨hparam, hargument⟩ := List.of_mem_zip hentry
      have hw := I.later_trans hw₁ hw₂
      exact ⟨hparams entry.1 hparam, I.value_later hw (harguments entry.2 hargument)⟩
    refine keeps_bind (keeps_declareAll false hscope hentries hpos) fun _ w₃ hw₃ _ => ?_
    exact keeps_deeper
      (ih.block (I.scope_later hw₃ hscope) (R.stmt_of_body hbody) (I.plain trivial))
  · rw [if_neg harity]
    exact keeps_fail _ hpos

end Step

/-- The evaluator keeps every invariant, however much fuel it has. -/
theorem keepsWith (I : Invariant R) (limit fuel : Nat) : KeepsWith I limit fuel := by
  induction fuel with
  | zero => exact keepsWith_zero I limit
  | succ fuel ih =>
    exact ⟨keeps_evalExpr ih, keeps_evalArguments ih, keeps_evalStmt ih, keeps_evalBlock ih,
      keeps_evalLoop ih, keeps_evalWhile ih, keeps_callFunction ih⟩

end Eval

/-- Running a program of the region keeps the invariant. -/
theorem Program.keeps {R : Region} (I : Invariant R) (w : I.World) {p : Program}
    (hp : ∀ s ∈ p, R.stmt s) (limit fuel : Nat) (scope : ScopeId) (hscope : I.scope w scope) :
    Eval.Keeps I w (p.eval limit fuel scope) I.value :=
  (Eval.keepsWith I limit fuel).block hscope hp (I.plain trivial)

end Scriptlet
