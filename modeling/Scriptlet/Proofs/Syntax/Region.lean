import Scriptlet.Syntax

/-! # Regions of trees

Trees are nested in lists of trees; `Expr.induction` and `Stmt.induction` give the hypothesis of an
induction for all members of such a list.

A region holds trees and positions, with every tree its parts and their positions. What an
evaluation can reach from the trees of a region then stays in it. The regions used here are that of
all trees (`Region.all`) and those of the trees whose positions satisfy a condition
(`Region.within`).
-/

namespace Scriptlet

/-- Induction on expressions, with a hypothesis for every argument of a call. -/
@[elab_as_elim]
theorem Expr.induction {motive : Expr → Prop}
    (assign : ∀ target value p, motive target → motive value → motive (.assign target value p))
    (binary : ∀ op left right p, motive left → motive right → motive (.binary op left right p))
    (not : ∀ operand p, motive operand → motive (.not operand p))
    (call : ∀ callee arguments p, motive callee → (∀ e ∈ arguments, motive e) →
      motive (.call callee arguments p))
    (identifier : ∀ x p, motive (.identifier x p)) (number : ∀ x p, motive (.number x p))
    (bool : ∀ b p, motive (.bool b p)) (e : Expr) : motive e :=
  @Expr.rec motive (fun es => ∀ e ∈ es, motive e) assign binary not call identifier number bool
    (fun _ he => absurd he List.not_mem_nil)
    (fun _ _ he hes => List.forall_mem_cons.mpr ⟨he, hes⟩) e

/-- Induction on statements, with a hypothesis for every statement of a body. -/
@[elab_as_elim]
theorem Stmt.induction {motive : Stmt → Prop}
    (declare : ∀ x value constant p, motive (.declare x value constant p))
    (function : ∀ x params body p, (∀ s ∈ body, motive s) → motive (.function x params body p))
    (loop : ∀ count body p, (∀ s ∈ body, motive s) → motive (.loop count body p))
    (whileLoop : ∀ condition body p, (∀ s ∈ body, motive s) → motive (.whileLoop condition body p))
    (expr : ∀ e, motive (.expr e)) (s : Stmt) : motive s :=
  @Stmt.rec motive (fun ss => ∀ s ∈ ss, motive s) declare function loop whileLoop expr
    (fun _ hs => absurd hs List.not_mem_nil)
    (fun _ _ hs hss => List.forall_mem_cons.mpr ⟨hs, hss⟩) s

/-- Trees and positions that go with them: the parts of a tree in the region, and the positions that
it is reported at, are in the region too. Bodies are those of functions. -/
structure Region where
  pos : Position → Prop
  expr : Expr → Prop
  stmt : Stmt → Prop
  body : List Stmt → Prop
  expr_pos : ∀ {e}, expr e → pos e.pos
  stmt_pos : ∀ {s}, stmt s → pos s.pos
  assign : ∀ {target value p}, expr (.assign target value p) → expr target ∧ expr value
  not : ∀ {operand p}, expr (.not operand p) → expr operand
  binary : ∀ {op left right p}, expr (.binary op left right p) → expr left ∧ expr right
  call : ∀ {callee arguments p}, expr (.call callee arguments p) →
    expr callee ∧ ∀ e ∈ arguments, expr e
  declare : ∀ {x value constant p}, stmt (.declare x (some value) constant p) → expr value
  function : ∀ {x params ss p}, stmt (.function x params ss p) → body ss
  loop : ∀ {count ss p}, stmt (.loop count ss p) → ∀ s ∈ ss, stmt s
  whileLoop : ∀ {condition ss p}, stmt (.whileLoop condition ss p) →
    expr condition ∧ ∀ s ∈ ss, stmt s
  value : ∀ {e}, stmt (.expr e) → expr e
  stmt_of_body : ∀ {ss}, body ss → ∀ s ∈ ss, stmt s

/-- The region of all trees and positions. -/
def Region.all : Region where
  pos _ := True
  expr _ := True
  stmt _ := True
  body _ := True
  expr_pos _ := trivial
  stmt_pos _ := trivial
  assign _ := ⟨trivial, trivial⟩
  not _ := trivial
  binary _ := ⟨trivial, trivial⟩
  call _ := ⟨trivial, fun _ _ => trivial⟩
  declare _ := trivial
  function _ := trivial
  loop _ _ _ := trivial
  whileLoop _ := ⟨trivial, fun _ _ => trivial⟩
  value _ := trivial
  stmt_of_body _ _ _ := trivial

/-- Names that the trees of a region keep to. -/
structure Region.Naming (R : Region) where
  name : String → Prop
  identifier : ∀ {x p}, R.expr (.identifier x p) → name x
  declare : ∀ {x value constant p}, R.stmt (.declare x value constant p) → name x
  function : ∀ {x params ss p}, R.stmt (.function x params ss p) →
    name x ∧ ∀ y ∈ params, name y

/-- The naming that allows all names. -/
def Region.anyName (R : Region) : R.Naming where
  name _ := True
  identifier _ := trivial
  declare _ := trivial
  function _ := ⟨trivial, fun _ _ => trivial⟩

/-! ## Trees by their positions -/

variable {P Q : Position → Prop}

/-- All positions in an expression satisfy a condition. -/
inductive Expr.Within (P : Position → Prop) : Expr → Prop
  | assign {target value : Expr} {p : Position} :
      Within P target → Within P value → P p → Within P (.assign target value p)
  | binary {op : Operator} {left right : Expr} {p : Position} :
      Within P left → Within P right → P p → Within P (.binary op left right p)
  | not {operand : Expr} {p : Position} : Within P operand → P p → Within P (.not operand p)
  | call {callee : Expr} {arguments : List Expr} {p : Position} :
      Within P callee → (∀ e ∈ arguments, Within P e) → P p → Within P (.call callee arguments p)
  | identifier {x : String} {p : Position} : P p → Within P (.identifier x p)
  | number {x : Float} {p : Position} : P p → Within P (.number x p)
  | bool {b : Bool} {p : Position} : P p → Within P (.bool b p)

/-- All positions in a statement satisfy a condition. -/
inductive Stmt.Within (P : Position → Prop) : Stmt → Prop
  | unset {x : String} {constant : Bool} {p : Position} :
      P p → Within P (.declare x none constant p)
  | declare {x : String} {value : Expr} {constant : Bool} {p : Position} :
      value.Within P → P p → Within P (.declare x (some value) constant p)
  | function {x : String} {params : List String} {body : List Stmt} {p : Position} :
      (∀ s ∈ body, Within P s) → P p → Within P (.function x params body p)
  | loop {count : Nat} {body : List Stmt} {p : Position} :
      (∀ s ∈ body, Within P s) → P p → Within P (.loop count body p)
  | whileLoop {condition : Expr} {body : List Stmt} {p : Position} :
      condition.Within P → (∀ s ∈ body, Within P s) → P p → Within P (.whileLoop condition body p)
  | expr {e : Expr} : e.Within P → Within P (.expr e)

theorem Expr.Within.pos {e : Expr} (h : e.Within P) : P e.pos := by
  cases h <;> assumption

theorem Stmt.Within.pos {s : Stmt} (h : s.Within P) : P s.pos := by
  cases h with
  | expr he => exact he.pos
  | _ => assumption

theorem Expr.Within.mono (hPQ : ∀ p, P p → Q p) {e : Expr} (h : e.Within P) : e.Within Q := by
  induction h with
  | assign _ _ hp ihTarget ihValue => exact .assign ihTarget ihValue (hPQ _ hp)
  | binary _ _ hp ihLeft ihRight => exact .binary ihLeft ihRight (hPQ _ hp)
  | not _ hp ih => exact .not ih (hPQ _ hp)
  | call _ _ hp ihCallee ihArguments => exact .call ihCallee ihArguments (hPQ _ hp)
  | identifier hp => exact .identifier (hPQ _ hp)
  | number hp => exact .number (hPQ _ hp)
  | bool hp => exact .bool (hPQ _ hp)

theorem Stmt.Within.mono (hPQ : ∀ p, P p → Q p) {s : Stmt} (h : s.Within P) : s.Within Q := by
  induction h with
  | unset hp => exact .unset (hPQ _ hp)
  | declare hvalue hp => exact .declare (hvalue.mono hPQ) (hPQ _ hp)
  | function _ hp ih => exact .function ih (hPQ _ hp)
  | loop _ hp ih => exact .loop ih (hPQ _ hp)
  | whileLoop hcondition _ hp ih => exact .whileLoop (hcondition.mono hPQ) ih (hPQ _ hp)
  | expr he => exact .expr (he.mono hPQ)

/-- The region of all trees whose positions satisfy a condition. -/
def Region.within (P : Position → Prop) : Region where
  pos := P
  expr := Expr.Within P
  stmt := Stmt.Within P
  body ss := ∀ s ∈ ss, s.Within P
  expr_pos h := h.pos
  stmt_pos h := h.pos
  assign | .assign htarget hvalue _ => ⟨htarget, hvalue⟩
  not | .not hoperand _ => hoperand
  binary | .binary hleft hright _ => ⟨hleft, hright⟩
  call | .call hcallee harguments _ => ⟨hcallee, harguments⟩
  declare | .declare hvalue _ => hvalue
  function | .function hbody _ => hbody
  loop | .loop hbody _ => hbody
  whileLoop | .whileLoop hcondition hbody _ => ⟨hcondition, hbody⟩
  value | .expr he => he
  stmt_of_body h := h

end Scriptlet
