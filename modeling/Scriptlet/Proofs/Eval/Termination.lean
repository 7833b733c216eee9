import Scriptlet.Proofs.Eval.Confined
import Scriptlet.Proofs.Eval.Scopes
import Scriptlet.Proofs.Eval.Simulation

/-! # Programs without conditional loops finish

Only a conditional loop can keep a program running for ever. Where there is none, neither in the
program nor in a function that it can call, less is left to do with every step: a statement runs its
parts, a counted loop has one pass less before it, and a call runs its body one level deeper, of
which the limit leaves only so many. `Finishes` says of one evaluation that some fuel suffices for
it and that it brings no conditional loop in. The levels that are left are the outer induction, the
tree of the program is the inner one.

What host functions do is asked of the host (`Host.Orderly`), and the functions that programs run on
here do it. That they return is not enough: a host function can return a function of a program, and
if this one has a conditional loop in it, then a program without any can run for ever
(`callOfResult_unfinished`).
-/

namespace Scriptlet

/-! ## Trees without conditional loops -/

mutual

/-- A statement with no conditional loop in it, however deep. -/
def Stmt.isWhileFree : Stmt → Bool
  | .declare .. | .expr _ => true
  | .function _ _ body _ | .loop _ body _ => Stmt.areWhileFree body
  | .whileLoop .. => false

/-- Statements with no conditional loop in any of them. -/
def Stmt.areWhileFree : List Stmt → Bool
  | [] => true
  | s :: ss => s.isWhileFree && Stmt.areWhileFree ss

end

/-- A program with no conditional loop in it. -/
abbrev Program.isWhileFree (p : Program) : Bool :=
  Stmt.areWhileFree p

theorem Stmt.areWhileFree_iff {ss : List Stmt} :
    Stmt.areWhileFree ss = true ↔ ∀ s ∈ ss, s.isWhileFree = true := by
  induction ss with
  | nil => simp [Stmt.areWhileFree]
  | cons s ss ih => simp [Stmt.areWhileFree, ih]

/-- The region of trees without conditional loops. -/
def Region.whileFree : Region where
  pos _ := True
  expr _ := True
  stmt s := s.isWhileFree = true
  body ss := Stmt.areWhileFree ss = true
  expr_pos _ := trivial
  stmt_pos _ := trivial
  assign _ := ⟨trivial, trivial⟩
  not _ := trivial
  binary _ := ⟨trivial, trivial⟩
  call := @Region.all.call
  declare _ := trivial
  function h := by simpa [Stmt.isWhileFree] using h
  loop h := Stmt.areWhileFree_iff.mp (by simpa [Stmt.isWhileFree] using h)
  whileLoop h := by simp [Stmt.isWhileFree] at h
  value _ := trivial
  stmt_of_body := Stmt.areWhileFree_iff.mp

/-- What is asked of the functions of a host. -/
structure Host.Orderly (host : Host) : Prop where
  /-- They return. -/
  returns : ∀ f arguments scope pos m, host.call f arguments scope pos m ≠ .unfinished
  /-- They leave the depth of calls as it is, which they are not given. -/
  depth_eq : ∀ {f arguments scope pos m v m'}, host.call f arguments scope pos m = .done v m' →
    m'.depth = m.depth
  /-- They bring no function with a conditional loop in, neither as their result nor into the store.
  This does not follow from the rest. -/
  whileFree : ∀ {f arguments scope pos m v m'}, host.call f arguments scope pos m = .done v m' →
    m.store.In .whileFree → (∀ v ∈ arguments, v.In .whileFree) →
    m'.store.In .whileFree ∧ v.In .whileFree

namespace Eval

variable {α β : Type} {limit room : Nat} {post : α → Prop} {post' : β → Prop}

/-! ## Evaluations that finish -/

/-- An evaluation has ended from `m` on. If it succeeded, it came back to the same depth, the store
has no conditional loop, and the value satisfies the condition. -/
def Ended (m : Machine) (post : α → Prop) : Outcome RuntimeError α → Prop
  | .done a m' => m'.depth = m.depth ∧ m'.store.In .whileFree ∧ post a
  | .failed _ _ => True
  | .unfinished => False

/-- Wherever the store has no conditional loop and at most `room` levels of calls are free, enough
fuel makes an evaluation end. -/
def Finishes (limit room : Nat) (x : Nat → Eval α) (post : α → Prop) : Prop :=
  ∀ m : Machine, m.store.In .whileFree → limit ≤ m.depth + room →
    ∃ n o, Ended m post o ∧ ∀ fuel, n ≤ fuel → x fuel m = o

/-- What needs no fuel finishes if it ends. -/
theorem finishes_of_ended {x : Eval α}
    (h : ∀ m, m.store.In .whileFree → limit ≤ m.depth + room → Ended m post (x m)) :
    Finishes limit room (fun _ => x) post :=
  fun m hm hroom => ⟨0, x m, h m hm hroom, fun _ _ => rfl⟩

theorem finishes_pure {a : α} (h : post a) : Finishes limit room (fun _ => pure a) post :=
  finishes_of_ended fun _ hm _ => ⟨rfl, hm, h⟩

theorem finishes_fail (cause : RuntimeError.Cause) (pos : Position) :
    Finishes limit room (fun _ => (fail cause pos : Eval α)) post :=
  finishes_of_ended fun _ _ _ => trivial

theorem finishes_ofExcept (pos : Position) {result : Except RuntimeError.Cause α}
    (h : ∀ a, result = .ok a → post a) :
    Finishes limit room (fun _ => ofExcept pos result) post := by
  cases result with
  | ok a => exact finishes_pure (h a rfl)
  | error cause => exact finishes_fail cause pos

/-- One unit of fuel pays for a step. -/
theorem finishes_of_step {x y : Nat → Eval α} (hstep : ∀ fuel, x (fuel + 1) = y fuel)
    (hy : Finishes limit room y post) : Finishes limit room x post := by
  intro m hm hroom
  obtain ⟨n, o, hended, hrun⟩ := hy m hm hroom
  refine ⟨n + 1, o, hended, fun fuel hfuel => ?_⟩
  obtain ⟨fuel, rfl⟩ : ∃ k, fuel = k + 1 := ⟨fuel - 1, by omega⟩
  rw [hstep]
  exact hrun fuel (by omega)

/-- Evaluations in turn finish if the first does, and the second does on whatever the first gives.
-/
theorem finishes_bind {x : Nat → Eval α} {f : Nat → α → Eval β}
    (hx : Finishes limit room x post)
    (hf : ∀ a, post a → Finishes limit room (fun fuel => f fuel a) post') :
    Finishes limit room (fun fuel => x fuel >>= f fuel) post' := by
  intro m hm hroom
  obtain ⟨n, o, hended, hrun⟩ := hx m hm hroom
  cases o with
  | done a m₁ =>
    obtain ⟨hdepth, hm₁, ha⟩ := hended
    obtain ⟨n', o', hended', hrun'⟩ := hf a ha m₁ hm₁ (by omega)
    -- both parts are given the fuel that the more demanding one needs
    refine ⟨max n n', o', ?_, fun fuel hfuel => ?_⟩
    · cases o' with
      | done b m₂ => exact ⟨hended'.1.trans hdepth, hended'.2⟩
      | failed e m₂ => trivial
      | unfinished => exact hended'
    · show (x fuel >>= f fuel) m = o'
      rw [bind_apply, hrun fuel (by omega)]
      exact hrun' fuel (by omega)
  | failed e m₁ =>
    refine ⟨n, .failed e m₁, trivial, fun fuel hfuel => ?_⟩
    show (x fuel >>= f fuel) m = .failed e m₁
    rw [bind_apply, hrun fuel hfuel]
  | unfinished => exact hended.elim

/-- One level deeper there is one level less. -/
theorem finishes_deeper {x : Nat → Eval α} (hx : Finishes limit room x post) :
    Finishes limit (room + 1) (fun fuel => deeper (x fuel)) post := by
  intro m hm hroom
  obtain ⟨n, o, hended, hrun⟩ := hx { m with depth := m.depth + 1 } hm (by simp only; omega)
  cases o with
  | done a m₁ =>
    obtain ⟨hdepth, hm₁, ha⟩ := hended
    refine ⟨n, .done a { m₁ with depth := m₁.depth - 1 }, ⟨?_, hm₁, ha⟩, fun fuel hfuel => ?_⟩
    · show m₁.depth - 1 = m.depth
      rw [hdepth]
      rfl
    · show deeper (x fuel) m = _
      rw [deeper, hrun fuel hfuel]
  | failed e m₁ =>
    refine ⟨n, .failed e { m₁ with depth := m₁.depth - 1 }, trivial, fun fuel hfuel => ?_⟩
    show deeper (x fuel) m = _
    rw [deeper, hrun fuel hfuel]
  | unfinished => exact hended.elim

/-! ## Primitives -/

section Primitives

variable {scope : ScopeId} {x : String} {v : Value} {pos : Position}

theorem finishes_lookup :
    Finishes limit room (fun _ => lookup scope x pos) (Value.In .whileFree) := by
  refine finishes_of_ended fun m hm _ => ?_
  rw [lookup, Store.lookup]
  cases hfind : m.store.find? scope x with
  | none => trivial
  | some b =>
    obtain ⟨owner, -, hlocal⟩ := Store.local?_of_find? hfind
    exact ⟨rfl, hm, hm owner x b hlocal⟩

theorem finishes_declare (constant : Bool) (hv : v.In .whileFree) :
    Finishes limit room (fun _ => declare scope x v constant pos) (Value.In .whileFree) := by
  refine finishes_of_ended fun m hm _ => ?_
  rw [declare]
  cases hdeclare : m.store.declare scope x v constant with
  | error cause => trivial
  | ok s => exact ⟨rfl, hm.declare hv hdeclare, hv⟩

theorem finishes_assign (hv : v.In .whileFree) :
    Finishes limit room (fun _ => assign scope x v pos) (Value.In .whileFree) := by
  refine finishes_of_ended fun m hm _ => ?_
  rw [assign]
  cases hassign : m.store.assign scope x v with
  | error cause => trivial
  | ok s => exact ⟨rfl, hm.assign hv hassign, hv⟩

theorem finishes_declareAll (constant : Bool) {entries : List (String × Value)}
    (hentries : ∀ entry ∈ entries, entry.2.In .whileFree) :
    Finishes limit room (fun _ => declareAll scope constant pos entries) (fun _ => True) := by
  induction entries with
  | nil => exact finishes_pure trivial
  | cons entry entries ih =>
    rw [List.forall_mem_cons] at hentries
    exact finishes_bind (finishes_declare constant hentries.1) fun _ _ => ih hentries.2

theorem finishes_newScope (parent : Option ScopeId) :
    Finishes limit room (fun _ => newScope parent) (fun _ => True) :=
  finishes_of_ended fun _ hm _ => ⟨rfl, hm.push parent, trivial⟩

/-- A level is claimed only where one is free. -/
theorem finishes_claimDepth (pos : Position) :
    Finishes limit room (fun _ => claimDepth limit pos) (fun _ => room ≠ 0) := by
  refine finishes_of_ended fun m hm hroom => ?_
  rw [claimDepth]
  by_cases hfree : m.depth < limit
  · rw [if_pos hfree]
    exact ⟨rfl, hm, by omega⟩
  · rw [if_neg hfree]
    trivial

end Primitives

/-- An orderly host answers every call without bringing in a conditional loop. -/
theorem finishes_native {host : Host} (hhost : host.Orderly) (f : Native) {arguments : List Value}
    (harguments : ∀ v ∈ arguments, v.In .whileFree) (scope : ScopeId) (pos : Position) :
    Finishes limit room (fun _ => host.call f arguments scope pos) (Value.In .whileFree) := by
  refine finishes_of_ended fun m hm _ => ?_
  cases hcall : host.call f arguments scope pos m with
  | done v m' =>
    obtain ⟨hm', hv⟩ := hhost.whileFree hcall hm harguments
    exact ⟨hhost.depth_eq hcall, hm', hv⟩
  | failed e m' => trivial
  | unfinished => exact absurd hcall (hhost.returns f arguments scope pos m)

/-! ## The evaluator -/

variable [host : Host]

/-- Blocks finish where at most `room` levels of calls are free. -/
def BlocksFinish (limit room : Nat) : Prop :=
  ∀ {ss : List Stmt} (scope : ScopeId) {last : Value}, Stmt.areWhileFree ss = true →
    last.In .whileFree →
    Finishes limit room (fun fuel => evalBlock limit fuel scope ss last) (Value.In .whileFree)

/-- Calls finish where at most `room` levels are free. -/
def CallsFinish (limit room : Nat) : Prop :=
  ∀ {f : Function} {arguments : List Value} (pos : Position), Stmt.areWhileFree f.body = true →
    (∀ v ∈ arguments, v.In .whileFree) →
    Finishes limit room (fun fuel => callFunction limit fuel f arguments pos) (Value.In .whileFree)

/-- A call finishes if blocks do one level deeper; where no level is free, it fails. -/
theorem callsFinish (hblocks : ∀ deeper, room = deeper + 1 → BlocksFinish limit deeper) :
    CallsFinish limit room := by
  intro f arguments pos hbody harguments
  refine finishes_of_step (fun fuel => by rw [callFunction]) ?_
  by_cases harity : arguments.length = f.params.length
  · simp only [if_pos harity]
    have hentries : ∀ entry ∈ f.params.zip arguments, entry.2.In .whileFree :=
      fun entry hentry => harguments entry.2 (List.of_mem_zip hentry).2
    refine finishes_bind (finishes_claimDepth pos) fun _ hfree => ?_
    obtain ⟨deeper, rfl⟩ := Nat.exists_eq_succ_of_ne_zero hfree
    refine finishes_bind (finishes_newScope _) fun scope _ => ?_
    refine finishes_bind (finishes_declareAll false hentries) fun _ _ => ?_
    exact finishes_deeper (hblocks deeper rfl scope hbody trivial)
  · simp only [if_neg harity]
    exact finishes_fail _ _

/-- Arguments finish if each of them does. -/
theorem finishes_evalArguments {scope : ScopeId} {es : List Expr}
    (hes : ∀ e ∈ es, Finishes limit room (fun fuel => evalExpr limit fuel scope e)
      (Value.In .whileFree)) :
    Finishes limit room (fun fuel => evalArguments limit fuel scope es)
      (fun vs => ∀ v ∈ vs, v.In .whileFree) := by
  induction es with
  | nil =>
    refine finishes_of_step (fun fuel => by rw [evalArguments]) (finishes_pure ?_)
    exact fun _ hv => absurd hv List.not_mem_nil
  | cons e es ih =>
    rw [List.forall_mem_cons] at hes
    refine finishes_of_step (fun fuel => by rw [evalArguments]) ?_
    refine finishes_bind hes.1 fun v hv => ?_
    refine finishes_bind (ih hes.2) fun vs hvs => ?_
    exact finishes_pure (List.forall_mem_cons.mpr ⟨hv, hvs⟩)

/-- By induction on the expression. Calls are known to finish as far as the limit leaves room. -/
theorem finishes_evalExpr (hhost : host.Orderly) (hcalls : CallsFinish limit room)
    (scope : ScopeId) (e : Expr) :
    Finishes limit room (fun fuel => evalExpr limit fuel scope e) (Value.In .whileFree) := by
  induction e using Expr.induction with
  | number x p | bool b p =>
    refine finishes_of_step (fun fuel => by rw [evalExpr]) (finishes_pure ?_)
    trivial
  | identifier x p => exact finishes_of_step (fun fuel => by rw [evalExpr]) finishes_lookup
  | assign target value p _ ihValue =>
    cases target with
    | identifier x _ =>
      refine finishes_of_step (fun fuel => by rw [evalExpr]) ?_
      exact finishes_bind ihValue fun _ hv => finishes_assign hv
    | _ =>
      exact finishes_of_step (fun fuel => by simp only [evalExpr]; rfl) (finishes_fail _ _)
  | not operand p ih =>
    refine finishes_of_step (fun fuel => by rw [evalExpr]) ?_
    refine finishes_bind ih fun _ _ => ?_
    exact finishes_ofExcept _ fun _ hok => .of_below (Value.negate_below hok 0)
  | binary op left right p ihLeft ihRight =>
    refine finishes_of_step (fun fuel => by rw [evalExpr]) ?_
    refine finishes_bind ihLeft fun _ _ => ?_
    refine finishes_bind ihRight fun _ _ => ?_
    exact finishes_ofExcept _ fun _ hok => .of_below (Operator.apply_below hok 0)
  | call callee arguments p ihCallee ihArguments =>
    refine finishes_of_step (fun fuel => by rw [evalExpr]) ?_
    refine finishes_bind ihCallee fun f hf => ?_
    refine finishes_bind (finishes_evalArguments ihArguments) fun vs hvs => ?_
    cases f with
    | function f => exact hcalls p hf hvs
    | native f => exact finishes_native hhost f hvs scope p
    | _ => exact finishes_fail _ p

/-- Statements one after another finish if each of them does. -/
theorem finishes_evalBlock {scope : ScopeId} {ss : List Stmt} {last : Value}
    (hss : ∀ s ∈ ss, Finishes limit room (fun fuel => evalStmt limit fuel scope s)
      (Value.In .whileFree)) (hlast : last.In .whileFree) :
    Finishes limit room (fun fuel => evalBlock limit fuel scope ss last) (Value.In .whileFree) := by
  induction ss generalizing last with
  | nil => exact finishes_of_step (fun fuel => by rw [evalBlock]) (finishes_pure hlast)
  | cons s ss ih =>
    rw [List.forall_mem_cons] at hss
    refine finishes_of_step (fun fuel => by rw [evalBlock]) ?_
    exact finishes_bind hss.1 fun _ hv => ih hss.2 hv

/-- A counted loop finishes if its body does, whatever the count. -/
theorem finishes_evalLoop {scope : ScopeId} {body : List Stmt}
    (hbody : Finishes limit room (fun fuel => evalBlock limit fuel scope body .nil)
      (Value.In .whileFree)) (count : Nat) {last : Value} (hlast : last.In .whileFree) :
    Finishes limit room (fun fuel => evalLoop limit fuel scope body count last)
      (Value.In .whileFree) := by
  induction count generalizing last with
  | zero => exact finishes_of_step (fun fuel => by rw [evalLoop]) (finishes_pure hlast)
  | succ count ih =>
    refine finishes_of_step (fun fuel => by rw [evalLoop]) ?_
    exact finishes_bind hbody fun _ hv => ih hv

theorem finishes_evalStmt (hhost : host.Orderly) (hcalls : CallsFinish limit room)
    (scope : ScopeId) (s : Stmt) (hs : s.isWhileFree = true) :
    Finishes limit room (fun fuel => evalStmt limit fuel scope s) (Value.In .whileFree) := by
  induction s using Stmt.induction with
  | declare x value constant p =>
    cases value with
    | none =>
      refine finishes_of_step (fun fuel => by rw [evalStmt]) (finishes_declare constant ?_)
      trivial
    | some value =>
      refine finishes_of_step (fun fuel => by rw [evalStmt]) ?_
      refine finishes_bind (finishes_evalExpr hhost hcalls scope value) fun _ hv => ?_
      exact finishes_declare constant hv
  | function x params body p _ =>
    refine finishes_of_step (fun fuel => by rw [evalStmt]) (finishes_declare true ?_)
    rwa [Stmt.isWhileFree] at hs
  | loop count body p ih =>
    rw [Stmt.isWhileFree, Stmt.areWhileFree_iff] at hs
    have hbody : Finishes limit room (fun fuel => evalBlock limit fuel scope body .nil)
        (Value.In .whileFree) :=
      finishes_evalBlock (fun s hmem => ih s hmem (hs s hmem)) trivial
    refine finishes_of_step (fun fuel => by rw [evalStmt]) (finishes_evalLoop hbody count ?_)
    trivial
  | whileLoop condition body p _ =>
    rw [Stmt.isWhileFree] at hs
    cases hs
  | expr e =>
    exact finishes_of_step (fun fuel => by rw [evalStmt]) (finishes_evalExpr hhost hcalls scope e)

/-- By induction on the statements; a counted loop makes the number of passes that it says. -/
theorem blocksFinish_of_calls (hhost : host.Orderly) (hcalls : CallsFinish limit room) :
    BlocksFinish limit room := by
  intro ss scope last hss hlast
  rw [Stmt.areWhileFree_iff] at hss
  exact finishes_evalBlock (fun s hs => finishes_evalStmt hhost hcalls scope s (hss s hs)) hlast

/-- Blocks without conditional loops finish, by induction on the levels that are left for calls. -/
theorem blocksFinish (hhost : host.Orderly) (room : Nat) : BlocksFinish limit room := by
  induction room with
  | zero =>
    refine blocksFinish_of_calls hhost (callsFinish fun deeper hdeeper => ?_)
    omega
  | succ room ih =>
    refine blocksFinish_of_calls hhost (callsFinish ?_)
    rintro deeper ⟨⟩
    exact ih

end Eval

/-! ## Host functions -/

theorem Native.run_ends (f : Native) (arguments : List Value) (pos : Position) (m : Machine) :
    ∃ m', (f.run arguments pos m).EndsIn m' ∧ m'.depth = m.depth := by
  unfold Native.run
  cases f.kind with
  | println =>
    cases f.channel with
    | console =>
      show ∃ m', ((Eval.print _ pos >>= _) m).EndsIn m' ∧ m'.depth = m.depth
      rw [Eval.bind_apply, Eval.print]
      rcases m.sink.print ⟨Native.lineOf arguments, pos⟩ with ⟨_ | fault, sink⟩
      · exact ⟨_, rfl, rfl⟩
      · exact ⟨_, rfl, rfl⟩
    | discarded => exact ⟨m, rfl, rfl⟩
  | assert =>
    cases arguments with
    | nil => exact ⟨m, rfl, rfl⟩
    | cons v more =>
      cases more with
      | cons _ _ => exact ⟨m, rfl, rfl⟩
      | nil =>
        show ∃ m', ((Eval.ofExcept pos _ >>= _) m).EndsIn m' ∧ m'.depth = m.depth
        rw [Eval.bind_apply]
        cases v.asBool NativeKind.assert.name with
        | error cause => exact ⟨m, rfl, rfl⟩
        | ok holds => cases holds <;> exact ⟨m, rfl, rfl⟩

theorem Native.call_ends (f : Native) (arguments : List Value) (pos : Position) (m : Machine) :
    ∃ m', (f.call arguments pos m).EndsIn m' ∧ m'.depth = m.depth := by
  unfold Native.call
  cases f.kind.arity? with
  | none => exact f.run_ends arguments pos m
  | some arity =>
    by_cases harity : arity = arguments.length
    · simp only [if_pos harity]
      exact f.run_ends arguments pos m
    · simp only [if_neg harity]
      exact ⟨m, rfl, rfl⟩

/-- The host that programs run on is orderly. -/
theorem Host.standard_orderly : Host.standard.Orderly where
  returns f arguments scope pos m h := by
    obtain ⟨m', hends, -⟩ := f.call_ends arguments pos m
    rw [show f.call arguments pos m = .unfinished from h] at hends
    exact hends
  depth_eq {f arguments scope pos m v m'} h := by
    obtain ⟨m'', hends, hdepth⟩ := f.call_ends arguments pos m
    rw [show f.call arguments pos m = .done v m' from h] at hends
    rw [(hends : m' = m''), hdepth]
  whileFree {f arguments scope pos m v m'} h hm harguments := by
    have hkeeps : Eval.Keeps (confinement .whileFree) () (f.call arguments pos)
        (confinement .whileFree).value := Eval.keeps_native f harguments trivial
    have hend := hkeeps m hm
    rw [show f.call arguments pos m = .done v m' from h] at hend
    obtain ⟨_, -, hm', hv⟩ := hend
    exact ⟨hm', hv⟩

/-! ## Programs -/

/-- A program without conditional loops, on a store whose functions have none, ends with enough
fuel, whatever the limit of nested calls and the counts of its loops are. So it does on every host
whose functions return and bring no function with a conditional loop in. -/
theorem Program.eval_finishes {p : Program} {m : Machine} (hp : p.isWhileFree = true)
    (hm : m.store.In .whileFree) (limit : Nat) (scope : ScopeId) :
    (∃ o, Settles (fun fuel => p.eval limit fuel scope m) o) ∧
      ∀ host : Host, host.Orderly → ∃ o, Settles (fun fuel => p.eval limit fuel scope m) o := by
  have hall (host : Host) (hhost : host.Orderly) :
      ∃ o, Settles (fun fuel => p.eval limit fuel scope m) o := by
    have hblock : Eval.Finishes limit limit (fun fuel => p.eval limit fuel scope)
        (Value.In .whileFree) := Eval.blocksFinish hhost limit scope hp trivial
    obtain ⟨n, o, hended, hrun⟩ := hblock m hm (Nat.le_add_left limit m.depth)
    refine ⟨o, ?_, n, hrun⟩
    rintro rfl
    exact hended
  exact ⟨hall _ Host.standard_orderly, hall⟩

/-- Calls a function that calls itself twice, without an end. -/
def branchingCalls : Program :=
  [.function "f" ["x"]
      [.loop 2 [.expr (.call (.identifier "f" .nowhere) [.identifier "x" .nowhere] .nowhere)]
        .nowhere] .nowhere,
    .expr (.call (.identifier "f" .nowhere) [.bool true .nowhere] .nowhere)]

theorem branchingCalls_finish :
    branchingCalls.isWhileFree = true ∧ (Machine.global .none).store.In .whileFree ∧
      ∃ o, Settles (fun fuel => branchingCalls.eval defaultLimit fuel 0 (.global .none)) o := by
  have hprogram : branchingCalls.isWhileFree = true := by decide
  have hmachine := Machine.global_in .whileFree .none
  exact ⟨hprogram, hmachine, (Program.eval_finishes hprogram hmachine defaultLimit 0).1⟩

/-! ## A host that brings a conditional loop in -/

/-- A function that loops for ever, `fn spin() { while true { } }`. -/
def spin : Function :=
  ⟨"spin", [], [.whileLoop (.bool true .nowhere) [] .nowhere], Machine.firstScope⟩

/-- The host functions return at once, and what they return is a function that never does. -/
@[reducible] def Host.returningSpin : Host where
  call _ _ _ _ := pure (.function spin)

theorem Host.returningSpin_call (f : Native) (arguments : List Value) (scope : ScopeId)
    (pos : Position) (m : Machine) :
    Host.returningSpin.call f arguments scope pos m = .done (.function spin) m := rfl

section Spin

variable (host : Host) {scope : ScopeId} {pos : Position}

/-- A loop whose condition is true and whose body is empty spends all its fuel. -/
theorem evalWhile_true_unfinished (limit fuel : Nat) (last : Value) (m : Machine) :
    evalWhile limit fuel scope (.bool true pos) [] last m = .unfinished := by
  induction fuel generalizing last with
  | zero => rw [evalWhile, Eval.unfinished]
  | succ fuel ih =>
    rw [evalWhile, Eval.bind_apply]
    cases fuel with
    | zero => rw [evalExpr, Eval.unfinished]
    | succ fuel =>
      rw [evalExpr, Eval.pure_apply]
      show (evalBlock limit (fuel + 1) scope [] .nil >>= _) m = .unfinished
      rw [Eval.bind_apply, evalBlock, Eval.pure_apply]
      exact ih .nil

theorem callFunction_spin_unfinished {limit : Nat} (fuel : Nat) {m : Machine}
    (hfree : m.depth < limit) : callFunction limit fuel spin [] pos m = .unfinished := by
  cases fuel with
  | zero => rw [callFunction, Eval.unfinished]
  | succ fuel =>
    have hbody (scope : ScopeId) (m : Machine) :
        evalBlock limit fuel scope spin.body .nil m = .unfinished := by
      cases fuel with
      | zero => rw [evalBlock, Eval.unfinished]
      | succ fuel =>
        rw [spin, evalBlock, Eval.bind_apply]
        cases fuel with
        | zero => rw [evalStmt, Eval.unfinished]
        | succ fuel => rw [evalStmt, evalWhile_true_unfinished]
    have harity : ([] : List Value).length = spin.params.length := rfl
    rw [callFunction, if_pos harity, Eval.bind_apply, Eval.claimDepth, if_pos hfree]
    show Eval.deeper (evalBlock limit fuel _ spin.body .nil) _ = .unfinished
    rw [Eval.deeper, hbody]

end Spin

/-- Calls what a host function returns, `println()()`. -/
def callOfResult : Program :=
  [.expr (.call (.call (.identifier "println" .nowhere) [] .nowhere) [] .nowhere)]

/-- There is no conditional loop in the program and none in the store, and every host function
returns and changes nothing. But the program spends all the fuel that it is given. -/
theorem callOfResult_unfinished :
    callOfResult.isWhileFree = true ∧ (Machine.global .none).store.In .whileFree ∧
      (∀ f arguments scope pos m,
        ∃ v, Host.returningSpin.call f arguments scope pos m = .done v m) ∧
      ∀ fuel, @Program.eval .returningSpin defaultLimit fuel Machine.firstScope callOfResult
        (.global .none) = .unfinished := by
  refine ⟨by decide, Machine.global_in .whileFree .none,
    fun f arguments scope pos m => ⟨_, Host.returningSpin_call f arguments scope pos m⟩,
    fun fuel => ?_⟩
  have hlookup : (Machine.global .none).store.lookup Machine.firstScope "println" =
      .ok (.native ⟨.println, Machine.firstScope, .console⟩) := by
    rw [Store.lookup, Store.find?, Store.resolve?]
    rfl
  have hfree : (Machine.global .none).depth < defaultLimit := by decide
  -- five units of fuel are spent on the way to the call of what was returned
  rcases fuel with _ | _ | _ | _ | _ | fuel
  all_goals
    simp only [Program.eval, callOfResult, evalBlock, evalStmt, evalExpr, evalArguments,
      Eval.bind_apply, Eval.pure_apply, Eval.unfinished, Eval.lookup, hlookup,
      Host.returningSpin_call]
  rw [callFunction_spin_unfinished .returningSpin _ hfree]

end Scriptlet
