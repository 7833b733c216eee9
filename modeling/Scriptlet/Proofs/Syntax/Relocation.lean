import Mathlib.Dynamics.FixedPoints.Basic
import Scriptlet.Value
import Scriptlet.Proofs.Syntax.Region

/-! # Trees with other positions

`relocate f` changes every position in a tree by `f` and nothing else; a function value is changed
in its body. Relocating by a constant makes trees equal that differ in their positions only. A tree
that stays as it is has no positions but those that `f` leaves where they are.
-/

namespace Scriptlet

mutual

/-- An expression with all its positions changed. -/
def Expr.relocate (f : Position → Position) : Expr → Expr
  | .assign target value p => .assign (target.relocate f) (value.relocate f) (f p)
  | .binary op left right p => .binary op (left.relocate f) (right.relocate f) (f p)
  | .not operand p => .not (operand.relocate f) (f p)
  | .call callee arguments p => .call (callee.relocate f) (Expr.relocateAll f arguments) (f p)
  | .identifier x p => .identifier x (f p)
  | .number x p => .number x (f p)
  | .bool b p => .bool b (f p)

/-- Expressions with all their positions changed. -/
def Expr.relocateAll (f : Position → Position) : List Expr → List Expr
  | [] => []
  | e :: es => e.relocate f :: Expr.relocateAll f es

end

mutual

/-- A statement with all its positions changed. -/
def Stmt.relocate (f : Position → Position) : Stmt → Stmt
  | .declare x value constant p => .declare x (value.map (Expr.relocate f)) constant (f p)
  | .function x params body p => .function x params (Stmt.relocateAll f body) (f p)
  | .loop count body p => .loop count (Stmt.relocateAll f body) (f p)
  | .whileLoop condition body p =>
    .whileLoop (condition.relocate f) (Stmt.relocateAll f body) (f p)
  | .expr e => .expr (e.relocate f)

/-- Statements with all their positions changed. -/
def Stmt.relocateAll (f : Position → Position) : List Stmt → List Stmt
  | [] => []
  | s :: ss => s.relocate f :: Stmt.relocateAll f ss

end

/-- A program with all its positions changed. -/
abbrev Program.relocate (f : Position → Position) (p : Program) : Program :=
  p.map (Stmt.relocate f)

variable (f g : Position → Position)

@[simp] theorem Expr.relocateAll_eq_map (es : List Expr) :
    Expr.relocateAll f es = es.map (Expr.relocate f) := by
  induction es with
  | nil => rfl
  | cons e es ih => rw [Expr.relocateAll, ih, List.map_cons]

@[simp] theorem Stmt.relocateAll_eq_map (ss : List Stmt) :
    Stmt.relocateAll f ss = ss.map (Stmt.relocate f) := by
  induction ss with
  | nil => rfl
  | cons s ss ih => rw [Stmt.relocateAll, ih, List.map_cons]

/-- The position of an expression is moved with it. -/
@[simp] theorem Expr.pos_relocate (e : Expr) : (e.relocate f).pos = f e.pos := by
  cases e <;> rfl

/-! ## Relocating twice, or not at all -/

@[simp] theorem Expr.relocate_id (e : Expr) : e.relocate id = e := by
  induction e using Expr.induction with
  | call callee arguments p ihCallee ihArguments =>
    have harguments : arguments.map (Expr.relocate id) = arguments :=
      (List.map_congr_left ihArguments).trans (List.map_id arguments)
    simp [Expr.relocate, ihCallee, harguments]
  | assign _ _ _ ihLeft ihRight | binary _ _ _ _ ihLeft ihRight =>
    simp [Expr.relocate, ihLeft, ihRight]
  | not _ _ ih => simp [Expr.relocate, ih]
  | identifier _ _ | number _ _ | bool _ _ => rfl

@[simp] theorem Stmt.relocate_id (s : Stmt) : s.relocate id = s := by
  have hbody {body : List Stmt} (ih : ∀ s ∈ body, s.relocate id = s) :
      body.map (Stmt.relocate id) = body :=
    (List.map_congr_left ih).trans (List.map_id body)
  induction s using Stmt.induction with
  | declare x value constant p => cases value <;> simp [Stmt.relocate]
  | function _ _ _ _ ih | loop _ _ _ ih | whileLoop _ _ _ ih => simp [Stmt.relocate, hbody ih]
  | expr e => simp [Stmt.relocate]

/-- To relocate twice is to relocate once, by both in turn. -/
theorem Expr.relocate_relocate (e : Expr) : (e.relocate f).relocate g = e.relocate (g ∘ f) := by
  induction e using Expr.induction with
  | call callee arguments p ihCallee ihArguments =>
    have harguments : (arguments.map (Expr.relocate f)).map (Expr.relocate g) =
        arguments.map (Expr.relocate (g ∘ f)) :=
      List.map_map.trans (List.map_congr_left ihArguments)
    simp [Expr.relocate, ihCallee, ← harguments]
  | assign _ _ _ ihLeft ihRight | binary _ _ _ _ ihLeft ihRight =>
    simp [Expr.relocate, ihLeft, ihRight]
  | not _ _ ih => simp [Expr.relocate, ih]
  | identifier _ _ | number _ _ | bool _ _ => rfl

/-- The same for statements, with the expressions and bodies in them. -/
theorem Stmt.relocate_relocate (s : Stmt) : (s.relocate f).relocate g = s.relocate (g ∘ f) := by
  have hbody {body : List Stmt} (ih : ∀ s ∈ body, (s.relocate f).relocate g = s.relocate (g ∘ f)) :
      (body.map (Stmt.relocate f)).map (Stmt.relocate g) = body.map (Stmt.relocate (g ∘ f)) :=
    List.map_map.trans (List.map_congr_left ih)
  induction s using Stmt.induction with
  | declare x value constant p =>
    cases value <;> simp [Stmt.relocate, Expr.relocate_relocate]
  | function _ _ _ _ ih | loop _ _ _ ih | whileLoop _ _ _ ih =>
    simp [Stmt.relocate, Expr.relocate_relocate, ← hbody ih]
  | expr e => simp [Stmt.relocate, Expr.relocate_relocate]

theorem Program.relocate_id (p : Program) : p.relocate id = p :=
  (List.map_congr_left fun s _ => s.relocate_id).trans (List.map_id p)

theorem Program.relocate_relocate (p : Program) :
    (p.relocate f).relocate g = p.relocate (g ∘ f) :=
  List.map_map.trans (List.map_congr_left fun s _ => s.relocate_relocate f g)

/-! ## Trees that stay as they are -/

variable {f}

/-- An expression that stays as it is has only positions that stay where they are. -/
theorem Expr.within_of_relocate_eq {e : Expr} (h : e.relocate f = e) :
    e.Within (Function.IsFixedPt f) := by
  induction e using Expr.induction with
  | assign target value p ihTarget ihValue =>
    obtain ⟨htarget, hvalue, hp⟩ := Expr.assign.inj h
    exact .assign (ihTarget htarget) (ihValue hvalue) hp
  | binary op left right p ihLeft ihRight =>
    obtain ⟨-, hleft, hright, hp⟩ := Expr.binary.inj h
    exact .binary (ihLeft hleft) (ihRight hright) hp
  | not operand p ih =>
    obtain ⟨hoperand, hp⟩ := Expr.not.inj h
    exact .not (ih hoperand) hp
  | call callee arguments p ihCallee ihArguments =>
    obtain ⟨hcallee, harguments, hp⟩ := Expr.call.inj h
    rw [Expr.relocateAll_eq_map] at harguments
    have hfixed := List.map_inj_left.mp (harguments.trans (List.map_id arguments).symm)
    exact .call (ihCallee hcallee) (fun e he => ihArguments e he (hfixed e he)) hp
  | identifier x p => exact .identifier (Expr.identifier.inj h).2
  | number x p => exact .number (Expr.number.inj h).2
  | bool b p => exact .bool (Expr.bool.inj h).2

/-- A statement that stays as it is has only positions that stay where they are. -/
theorem Stmt.within_of_relocate_eq {s : Stmt} (h : s.relocate f = s) :
    s.Within (Function.IsFixedPt f) := by
  have hbody {body : List Stmt}
      (ih : ∀ s ∈ body, s.relocate f = s → s.Within (Function.IsFixedPt f))
      (hfixed : Stmt.relocateAll f body = body) : ∀ s ∈ body, s.Within (Function.IsFixedPt f) := by
    rw [Stmt.relocateAll_eq_map] at hfixed
    exact fun s hs => ih s hs (List.map_inj_left.mp (hfixed.trans (List.map_id body).symm) s hs)
  induction s using Stmt.induction with
  | declare x value constant p =>
    obtain ⟨-, hvalue, -, hp⟩ := Stmt.declare.inj h
    cases value with
    | none => exact .unset hp
    | some e => exact .declare (Expr.within_of_relocate_eq (Option.some.inj hvalue)) hp
  | function x params body p ih =>
    obtain ⟨-, -, hfixed, hp⟩ := Stmt.function.inj h
    exact .function (hbody ih hfixed) hp
  | loop count body p ih =>
    obtain ⟨-, hfixed, hp⟩ := Stmt.loop.inj h
    exact .loop (hbody ih hfixed) hp
  | whileLoop condition body p ih =>
    obtain ⟨hcondition, hfixed, hp⟩ := Stmt.whileLoop.inj h
    exact .whileLoop (Expr.within_of_relocate_eq hcondition) (hbody ih hfixed) hp
  | expr e => exact .expr (Expr.within_of_relocate_eq (Stmt.expr.inj h))

variable (f)

/-! ## Values -/

/-- A value with all the positions in its body changed, if it is a function of the program. -/
def Value.relocate (f : Position → Position) : Value → Value
  | .function h => .function { h with body := Program.relocate f h.body }
  | v => v

/-- What is shown of a function is its name and not its place. -/
@[simp] theorem Value.text_relocate (v : Value) : (v.relocate f).text = v.text := by
  cases v <;> rfl

@[simp] theorem Value.relocate_id (v : Value) : v.relocate id = v := by
  cases v with
  | function h => rw [Value.relocate, Program.relocate_id]
  | _ => rfl

theorem Value.relocate_relocate (v : Value) : (v.relocate f).relocate g = v.relocate (g ∘ f) := by
  cases v with
  | function h => simp only [Value.relocate, Program.relocate_relocate]
  | _ => rfl

end Scriptlet
