import Scriptlet.Proofs.Eval.Confined

/-! # Where the errors and the functions of a run come from

A run draws on an *origin*: a program, and the functions that were made before. Its errors stand
at nodes of the origin, and the functions that it leaves in the store have their bodies from there
(`eval_provenance`). Both follow from `confinement` to the region of trees that an origin has. The
region is closed because the body of a function has no other nodes and functions than the statement
that declares it.
-/

namespace Scriptlet

/-! ## Nodes and bodies in a tree -/

mutual

/-- The positions of the nodes of an expression. -/
def Expr.positions : Expr → List Position
  | .assign target value p => p :: (target.positions ++ value.positions)
  | .binary _ left right p => p :: (left.positions ++ right.positions)
  | .not operand p => p :: operand.positions
  | .call callee arguments p => p :: (callee.positions ++ Expr.positionsAll arguments)
  | .identifier _ p | .number _ p | .bool _ p => [p]

/-- The positions of the nodes of expressions. -/
def Expr.positionsAll : List Expr → List Position
  | [] => []
  | e :: es => e.positions ++ Expr.positionsAll es

end

mutual

/-- The positions of the nodes of a statement. -/
def Stmt.positions : Stmt → List Position
  | .declare _ none _ p => [p]
  | .declare _ (some value) _ p => p :: value.positions
  | .function _ _ body p | .loop _ body p => p :: Stmt.positionsAll body
  | .whileLoop condition body p => p :: (condition.positions ++ Stmt.positionsAll body)
  | .expr e => e.positions

/-- The positions of the nodes of statements. -/
def Stmt.positionsAll : List Stmt → List Position
  | [] => []
  | s :: ss => s.positions ++ Stmt.positionsAll ss

end

mutual

/-- The bodies of the functions that a statement declares, those of functions inside included. -/
def Stmt.bodies : Stmt → List (List Stmt)
  | .declare _ _ _ _ | .expr _ => []
  | .function _ _ body _ => body :: Stmt.bodiesAll body
  | .loop _ body _ | .whileLoop _ body _ => Stmt.bodiesAll body

/-- The bodies of the functions that statements declare. -/
def Stmt.bodiesAll : List Stmt → List (List Stmt)
  | [] => []
  | s :: ss => s.bodies ++ Stmt.bodiesAll ss

end

theorem Expr.mem_positionsAll {p : Position} {es : List Expr} :
    p ∈ Expr.positionsAll es ↔ ∃ e ∈ es, p ∈ e.positions := by
  induction es with
  | nil => simp [Expr.positionsAll]
  | cons e es ih => simp [Expr.positionsAll, ih]

theorem Stmt.mem_positionsAll {p : Position} {ss : List Stmt} :
    p ∈ Stmt.positionsAll ss ↔ ∃ s ∈ ss, p ∈ s.positions := by
  induction ss with
  | nil => simp [Stmt.positionsAll]
  | cons s ss ih => simp [Stmt.positionsAll, ih]

theorem Stmt.mem_bodiesAll {body ss : List Stmt} :
    body ∈ Stmt.bodiesAll ss ↔ ∃ s ∈ ss, body ∈ s.bodies := by
  induction ss with
  | nil => simp [Stmt.bodiesAll]
  | cons s ss ih => simp [Stmt.bodiesAll, ih]

/-- What is true of all nodes and functions in statements is true of those in each statement. -/
theorem Stmt.forall_parts_of_mem {P : Position → Prop} {Q : List Stmt → Prop} {ss : List Stmt}
    (hP : ∀ p ∈ Stmt.positionsAll ss, P p) (hQ : ∀ body ∈ Stmt.bodiesAll ss, Q body) :
    ∀ s ∈ ss, (∀ p ∈ s.positions, P p) ∧ ∀ body ∈ s.bodies, Q body :=
  fun s hs => ⟨fun p hp => hP p (Stmt.mem_positionsAll.mpr ⟨s, hs, hp⟩),
    fun body hbody => hQ body (Stmt.mem_bodiesAll.mpr ⟨s, hs, hbody⟩)⟩

theorem Expr.pos_mem_positions (e : Expr) : e.pos ∈ e.positions := by
  cases e <;> simp [Expr.pos, Expr.positions]

theorem Stmt.pos_mem_positions (s : Stmt) : s.pos ∈ s.positions := by
  cases s with
  | declare x value constant p => cases value <;> simp [Stmt.pos, Stmt.positions]
  | expr e => simpa [Stmt.pos, Stmt.positions] using e.pos_mem_positions
  | _ => simp [Stmt.pos, Stmt.positions]

/-- The nodes of the statements, and the functions that they declare, are among the given ones. -/
def Stmt.NestedIn (positions : List Position) (bodies : List (List Stmt)) (ss : List Stmt) : Prop :=
  Stmt.positionsAll ss ⊆ positions ∧ Stmt.bodiesAll ss ⊆ bodies

theorem Stmt.NestedIn.ofMember {s : Stmt} {ss body : List Stmt} (hs : s ∈ ss)
    (h : Stmt.NestedIn s.positions s.bodies body) :
    Stmt.NestedIn (Stmt.positionsAll ss) (Stmt.bodiesAll ss) body :=
  ⟨fun _ hp => Stmt.mem_positionsAll.mpr ⟨s, hs, h.1 hp⟩,
    fun _ hb => Stmt.mem_bodiesAll.mpr ⟨s, hs, h.2 hb⟩⟩

theorem Stmt.NestedIn.mono {positions positions' : List Position}
    {bodies bodies' : List (List Stmt)} {ss : List Stmt} (h : Stmt.NestedIn positions bodies ss)
    (hp : positions ⊆ positions') (hb : bodies ⊆ bodies') :
    Stmt.NestedIn positions' bodies' ss :=
  ⟨List.Subset.trans h.1 hp, List.Subset.trans h.2 hb⟩

/-- The body of a function in a statement has no other nodes and functions than the statement. -/
theorem Stmt.nestedIn_of_mem_bodies (s : Stmt) :
    ∀ body ∈ s.bodies, Stmt.NestedIn s.positions s.bodies body := by
  -- the bodies in the statements of a body are nested in these statements
  have hmembers {ss : List Stmt}
      (ih : ∀ s ∈ ss, ∀ body ∈ s.bodies, Stmt.NestedIn s.positions s.bodies body) :
      ∀ body ∈ Stmt.bodiesAll ss,
        Stmt.NestedIn (Stmt.positionsAll ss) (Stmt.bodiesAll ss) body := by
    intro body hbody
    obtain ⟨s, hs, hbody⟩ := Stmt.mem_bodiesAll.mp hbody
    exact (ih s hs body hbody).ofMember hs
  induction s using Stmt.induction with
  | declare x value constant p => simp [Stmt.bodies]
  | function x params ss p ih =>
    intro body hbody
    rw [Stmt.bodies, List.mem_cons] at hbody
    rw [Stmt.positions, Stmt.bodies]
    rcases hbody with rfl | hbody
    · exact ⟨List.subset_cons_self _ _, List.subset_cons_self _ _⟩
    · exact (hmembers ih body hbody).mono (List.subset_cons_self _ _) (List.subset_cons_self _ _)
  | loop count ss p ih =>
    intro body hbody
    rw [Stmt.bodies] at hbody
    rw [Stmt.positions, Stmt.bodies]
    exact (hmembers ih body hbody).mono (List.subset_cons_self _ _) (List.Subset.refl _)
  | whileLoop condition ss p ih =>
    intro body hbody
    rw [Stmt.bodies] at hbody
    rw [Stmt.positions, Stmt.bodies]
    refine (hmembers ih body hbody).mono ?_ (List.Subset.refl _)
    exact List.Subset.trans (List.subset_append_right _ _) (List.subset_cons_self _ _)
  | expr e => simp [Stmt.bodies]

theorem Stmt.nestedIn_of_mem_bodiesAll {ss body : List Stmt} (h : body ∈ Stmt.bodiesAll ss) :
    Stmt.NestedIn (Stmt.positionsAll ss) (Stmt.bodiesAll ss) body := by
  obtain ⟨s, hs, hbody⟩ := Stmt.mem_bodiesAll.mp h
  exact (s.nestedIn_of_mem_bodies body hbody).ofMember hs

/-! ## Origins -/

/-- A store binds a function. -/
def Store.Holds (s : Store) (f : Function) : Prop :=
  ∃ id x constant, s.local? id x = some ⟨.function f, constant⟩

theorem Store.in_iff_holds {R : Region} {s : Store} : s.In R ↔ ∀ f, s.Holds f → R.body f.body := by
  constructor
  · rintro h f ⟨id, x, constant, hlocal⟩
    exact h id x _ hlocal
  · intro h id x b hlocal
    obtain ⟨v, constant⟩ := b
    cases v with
    | function f => exact h f ⟨id, x, constant, hlocal⟩
    | _ => trivial

/-- What an evaluation draws on: a program, and functions made before it. -/
structure Origin where
  program : Program
  functions : Function → Prop

namespace Origin

/-- A node of the program, or of the body of one of the functions, is at the position. -/
def HasNode (o : Origin) (p : Position) : Prop :=
  p ∈ Stmt.positionsAll o.program ∨ ∃ f, o.functions f ∧ p ∈ Stmt.positionsAll f.body

/-- The statements are the body of a function that the program declares, of one of the functions, or
of a function declared in the body of one. -/
def HasBody (o : Origin) (ss : List Stmt) : Prop :=
  ss ∈ Stmt.bodiesAll o.program ∨
    ∃ f, o.functions f ∧ (ss = f.body ∨ ss ∈ Stmt.bodiesAll f.body)

variable {o : Origin}

theorem HasBody.hasNode {ss : List Stmt} (h : o.HasBody ss) {p : Position}
    (hp : p ∈ Stmt.positionsAll ss) : o.HasNode p := by
  rcases h with hprogram | ⟨f, hf, rfl | hbody⟩
  · exact .inl ((Stmt.nestedIn_of_mem_bodiesAll hprogram).1 hp)
  · exact .inr ⟨f, hf, hp⟩
  · exact .inr ⟨f, hf, (Stmt.nestedIn_of_mem_bodiesAll hbody).1 hp⟩

theorem HasBody.nested {ss body : List Stmt} (h : o.HasBody ss)
    (hbody : body ∈ Stmt.bodiesAll ss) : o.HasBody body := by
  rcases h with hprogram | ⟨f, hf, rfl | hss⟩
  · exact .inl ((Stmt.nestedIn_of_mem_bodiesAll hprogram).2 hbody)
  · exact .inr ⟨f, hf, .inr hbody⟩
  · exact .inr ⟨f, hf, .inr ((Stmt.nestedIn_of_mem_bodiesAll hss).2 hbody)⟩

/-- The trees at positions that include those of an origin, whose functions are those of the
origin. -/
def region (o : Origin) (P : Position → Prop) (hP : ∀ p, o.HasNode p → P p) : Region where
  pos := P
  expr e := ∀ p ∈ e.positions, P p
  stmt s := (∀ p ∈ s.positions, P p) ∧ ∀ body ∈ s.bodies, o.HasBody body
  body := o.HasBody
  expr_pos {e} h := h e.pos e.pos_mem_positions
  stmt_pos {s} h := h.1 s.pos s.pos_mem_positions
  assign h := by
    simp only [Expr.positions, List.forall_mem_cons, List.forall_mem_append] at h
    exact h.2
  not h := by
    simp only [Expr.positions, List.forall_mem_cons] at h
    exact h.2
  binary h := by
    simp only [Expr.positions, List.forall_mem_cons, List.forall_mem_append] at h
    exact h.2
  call h := by
    simp only [Expr.positions, List.forall_mem_cons, List.forall_mem_append] at h
    exact ⟨h.2.1, fun e he p hp => h.2.2 p (Expr.mem_positionsAll.mpr ⟨e, he, hp⟩)⟩
  declare h := by
    simp only [Stmt.positions, List.forall_mem_cons] at h
    exact h.1.2
  function h := h.2 _ List.mem_cons_self
  loop h := by
    simp only [Stmt.positions, Stmt.bodies, List.forall_mem_cons] at h
    exact Stmt.forall_parts_of_mem h.1.2 h.2
  whileLoop h := by
    simp only [Stmt.positions, Stmt.bodies, List.forall_mem_cons, List.forall_mem_append] at h
    exact ⟨h.1.2.1, Stmt.forall_parts_of_mem h.1.2.2 h.2⟩
  value h := h.1
  stmt_of_body h := Stmt.forall_parts_of_mem (fun p hp => hP p (h.hasNode hp)) fun _ => h.nested

/-- What a program draws on when it runs in a store. -/
def ofProgram (p : Program) (s : Store) : Origin :=
  ⟨p, s.Holds⟩

/-- What the call of a function draws on: the function, those of the store and those among the
arguments. -/
def ofCall (f : Function) (arguments : List Value) (s : Store) : Origin :=
  ⟨[], fun g => g = f ∨ s.Holds g ∨ .function g ∈ arguments⟩

theorem hasBody_of_function {f : Function} (h : o.functions f) : o.HasBody f.body :=
  .inr ⟨f, h, .inl rfl⟩

/-- The store has no other functions than the origin, so it lies in the region of the origin. -/
theorem store_in {P : Position → Prop} {hP : ∀ p, o.HasNode p → P p} {s : Store}
    (h : ∀ f, s.Holds f → o.functions f) : s.In (o.region P hP) :=
  Store.in_iff_holds.mpr fun f hf => hasBody_of_function (h f hf)

end Origin

/-! ## Runs -/

namespace Eval

/-- An evaluation that stays in a region fails at its positions, and leaves functions with bodies
from there. -/
theorem Keeps.confined {R : Region} {x : Eval Value} {post : Unit → Value → Prop} {m : Machine}
    (hx : Keeps (confinement R) () x post) (hm : m.store.In R) :
    (∀ e m', x m = .failed e m' → R.pos e.pos) ∧
      ∀ m', (x m).EndsIn m' → ∀ f, m'.store.Holds f → R.body f.body := by
  constructor
  · intro e m' hfailed
    have hend := hx m hm
    rw [hfailed] at hend
    obtain ⟨_, -, -, hpos⟩ := hend
    exact hpos
  · intro m' hends
    obtain ⟨_, -, hstore⟩ := hx.store_of_endsIn hm hends
    exact Store.in_iff_holds.mp hstore

/-- A run fails at a node of the program or of a function in the store, and a call fails at its own
position or at a node of the function, of one in the store or of one among the arguments. However
they end, the functions in the store have their bodies from there too. The host is the standard one,
whose functions fail at the position of their call and declare nothing; another host could fail
anywhere, and bring functions with bodies of its own. -/
theorem eval_provenance (limit fuel : Nat) (m : Machine) :
    (∀ (p : Program) (scope : ScopeId),
      (∀ e m', p.eval limit fuel scope m = .failed e m' →
        (Origin.ofProgram p m.store).HasNode e.pos) ∧
      ∀ m', (p.eval limit fuel scope m).EndsIn m' →
        ∀ f, m'.store.Holds f → (Origin.ofProgram p m.store).HasBody f.body) ∧
    ∀ (f : Function) (arguments : List Value) (pos : Position),
      (∀ e m', callFunction limit fuel f arguments pos m = .failed e m' →
        e.pos = pos ∨ (Origin.ofCall f arguments m.store).HasNode e.pos) ∧
      ∀ m', (callFunction limit fuel f arguments pos m).EndsIn m' →
        ∀ g, m'.store.Holds g → (Origin.ofCall f arguments m.store).HasBody g.body := by
  refine ⟨fun p scope => ?_, fun f arguments pos => ?_⟩
  · let R : Region := (Origin.ofProgram p m.store).region _ fun _ h => h
    have hp : ∀ s ∈ p, R.stmt s := Stmt.forall_parts_of_mem (fun _ => .inl) fun _ => .inl
    exact (p.keeps (confinement R) () hp limit fuel scope trivial).confined
      (Origin.store_in fun _ => id)
  · let o := Origin.ofCall f arguments m.store
    let R : Region := o.region (fun p => p = pos ∨ o.HasNode p) fun _ => .inr
    have hf : (Value.function f).In R := Origin.hasBody_of_function (.inl rfl)
    have harguments : ∀ v ∈ arguments, v.In R := by
      intro v hv
      cases v with
      | function g => exact Origin.hasBody_of_function (.inr (.inr hv))
      | _ => trivial
    have hkeeps := (keepsWith (confinement R) limit fuel).call (w := ()) hf harguments (.inl rfl)
    exact hkeeps.confined (Origin.store_in fun g hg => .inr (.inl hg))

/-- A function whose body is a name that is bound nowhere. -/
def strayFunction : Function :=
  ⟨"stray", [], [.expr (.identifier "x" ⟨1, 14⟩)], 0⟩

/-- A function that calls the function it is given. -/
def applyFunction : Function :=
  ⟨"apply", ["f"], [.expr (.call (.identifier "f" ⟨2, 15⟩) [] ⟨2, 15⟩)], 0⟩

/-- A scope that binds the first of the functions. -/
def strayMachine : Machine :=
  { Machine.bare .none with store := ⟨#[⟨[("stray", ⟨.function strayFunction, true⟩)], none⟩]⟩ }

/-- Calls the function of the scope. -/
def strayCall : Program :=
  [.expr (.call (.identifier "stray" ⟨3, 1⟩) [] ⟨3, 1⟩)]

/-- The error stands in the function, whether it is found in the store or given as an argument, and
not where the call is. -/
theorem stray_provenance :
    (∃ e m', strayCall.eval 2 9 0 strayMachine = .failed e m' ∧ e.pos = ⟨1, 14⟩ ∧
      (Origin.ofProgram strayCall strayMachine.store).HasNode e.pos ∧
      ∀ f, m'.store.Holds f → (Origin.ofProgram strayCall strayMachine.store).HasBody f.body) ∧
    ∃ e m', callFunction 2 9 applyFunction [.function strayFunction] ⟨3, 1⟩ (.bare .none) =
        .failed e m' ∧ e.pos ≠ ⟨3, 1⟩ ∧
      (Origin.ofCall applyFunction [.function strayFunction] (Machine.bare .none).store).HasNode
        e.pos := by
  have hprogram : (strayCall.eval 2 9 0 strayMachine).failsWith (fun e => e.pos = ⟨1, 14⟩) = true := by
    decide +kernel
  have hcall : (callFunction 2 9 applyFunction [.function strayFunction] ⟨3, 1⟩
      (.bare .none)).failsWith (fun e => e.pos ≠ ⟨3, 1⟩) = true := by
    decide +kernel
  obtain ⟨e, m, hrun, hpos⟩ := Outcome.eq_failed_of_failsWith hprogram
  obtain ⟨e', m', hrun', hpos'⟩ := Outcome.eq_failed_of_failsWith hcall
  have hinside : e'.pos ≠ ⟨3, 1⟩ := of_decide_eq_true hpos'
  refine ⟨⟨e, m, hrun, of_decide_eq_true hpos, ?_⟩, e', m', hrun', hinside, ?_⟩
  · have hends : (strayCall.eval 2 9 0 strayMachine).EndsIn m := by
      rw [hrun]
      rfl
    obtain ⟨hnode, hbodies⟩ := (eval_provenance 2 9 strayMachine).1 strayCall 0
    exact ⟨hnode e m hrun, hbodies m hends⟩
  · have hcalls := (eval_provenance 2 9 (.bare .none)).2 applyFunction [.function strayFunction]
    exact ((hcalls ⟨3, 1⟩).1 e' m' hrun').resolve_left hinside

end Eval

end Scriptlet
