import Scriptlet.Proofs.Parser.Statement

/-! # The parser accepts its grammar

The parser reads as far as it can, so it follows the strict grammar. The written grammar allows more
derivations: an expression without a semicolon and a parenthesis after it may be two statements. But
the same tokens are then also one expression, in which the parenthesis opens the arguments of a
call (`Derives.merge`). So no text is rejected for having been read too far, and the parser accepts
what the written grammar derives.

`isWritable` describes the trees that have a text.
-/

namespace Scriptlet

mutual

/-- An expression that can be written: texts have no literals of truth values. -/
def Expr.isWritable : Expr → Bool
  | .assign target value _ => target.isWritable && value.isWritable
  | .binary _ left right _ => left.isWritable && right.isWritable
  | .not operand _ => operand.isWritable
  | .call callee arguments _ => callee.isWritable && Expr.areWritable arguments
  | .identifier _ _ | .number _ _ => true
  | .bool _ _ => false

/-- Expressions that can all be written. -/
def Expr.areWritable : List Expr → Bool
  | [] => true
  | e :: es => e.isWritable && Expr.areWritable es

end

mutual

/-- A statement that can be written: constants have a value, and counts are not too large for the
literals of counts. -/
def Stmt.isWritable : Stmt → Bool
  | .declare _ (some value) _ _ => value.isWritable
  | .declare _ none constant _ => !constant
  | .function _ _ body _ => Stmt.areWritable body
  | .loop count body _ => decide (count ≤ Number.maxCount) && Stmt.areWritable body
  | .whileLoop condition body _ => condition.isWritable && Stmt.areWritable body
  | .expr value => value.isWritable

/-- Statements that can all be written. -/
def Stmt.areWritable : List Stmt → Bool
  | [] => true
  | s :: ss => s.isWritable && Stmt.areWritable ss

end

/-- A program that can be written. -/
abbrev Program.isWritable (p : Program) : Bool :=
  Stmt.areWritable p

namespace Grammar

/-! ## Derived trees can be written -/

mutual

/-- By recursion on the derivation; the same for the other parts of the grammar below. -/
theorem Derives.isWritable {slot : Slot} {e : Expr} {w : List Token} :
    Derives slot e w → e.isWritable = true
  | .operand h | .positive h | .paren _ h _ => h.isWritable
  | .assign htarget _ hvalue => by
    rw [Expr.isWritable, htarget.isWritable, hvalue.isWritable]
    rfl
  | .operators h hchain => hchain.isWritable h.isWritable
  | .not _ h => by
    rw [Expr.isWritable]
    exact h.isWritable
  | .calls h hcalls => hcalls.isWritable h.isWritable
  | .identifier _ | .number _ => by rw [Expr.isWritable]

theorem Chain.isWritable {n : Nat} {left e : Expr} {v : List Token} :
    Chain n left e v → left.isWritable = true → e.isWritable = true
  | .done, hleft => hleft
  | .step _ _ hright h, hleft => by
    refine h.isWritable ?_
    rw [Expr.isWritable, hleft, hright.isWritable]
    rfl

theorem Calls.isWritable {callee e : Expr} {v : List Token} :
    Calls callee e v → callee.isWritable = true → e.isWritable = true
  | .done, hcallee => hcallee
  | .step _ hargs h, hcallee => by
    refine h.isWritable ?_
    rw [Expr.isWritable, hcallee, hargs.areWritable]
    rfl

theorem Arguments.areWritable {es : List Expr} {w : List Token} :
    Arguments es w → Expr.areWritable es = true
  | .none _ => by rw [Expr.areWritable]
  | .last h _ => by
    rw [Expr.areWritable, h.isWritable, Expr.areWritable]
    rfl
  | .more h _ hargs => by
    rw [Expr.areWritable, h.isWritable, hargs.areWritable]
    rfl

end

mutual

theorem Statement.isWritable {strict : Bool} {s : Stmt} {w : List Token} :
    Statement strict s w → s.isWritable = true
  | .unset _ _ _ => by
    rw [Stmt.isWritable]
    rfl
  | .set _ _ _ he _ => by
    rw [Stmt.isWritable]
    exact he.isWritable
  | .bare h | .ended h _ => h.isWritable

theorem Clause.isWritable {strict : Bool} {s : Stmt} {w : List Token} :
    Clause strict s w → s.isWritable = true
  | .function _ _ _ _ hbody => by
    rw [Stmt.isWritable]
    exact hbody.areWritable
  | .loop _ _ hcount hbody => by
    rw [Stmt.isWritable, hbody.areWritable, decide_eq_true hcount.2]
    rfl
  | .whileLoop _ hcondition hbody => by
    rw [Stmt.isWritable, hcondition.isWritable, hbody.areWritable]
    rfl
  | .expr he => by
    rw [Stmt.isWritable]
    exact he.isWritable

theorem Block.areWritable {strict : Bool} {body : List Stmt} {w : List Token} :
    Block strict body w → Stmt.areWritable body = true
  | .braces _ h _ => h.areWritable

theorem Statements.areWritable {strict : Bool} {ss : List Stmt} {w : List Token} :
    Statements strict ss w → Stmt.areWritable ss = true
  | .nil => by rw [Stmt.areWritable]
  | .cons hs hss _ => by
    rw [Stmt.areWritable, hs.isWritable, hss.areWritable]
    rfl

end

/-! ## The strict grammar is part of the grammar -/

mutual

theorem Statement.loose {s : Stmt} {w : List Token} : Statement true s w → Statement false s w
  | .unset hk hn hs => .unset hk hn hs
  | .set hk hn ha he hs => .set hk hn ha he hs
  | .bare h => .bare h.loose
  | .ended h ht => .ended h.loose ht

theorem Clause.loose {s : Stmt} {w : List Token} : Clause true s w → Clause false s w
  | .function hk hn hl hparams hbody => .function hk hn hl hparams hbody.loose
  | .loop hk hn hcount hbody => .loop hk hn hcount hbody.loose
  | .whileLoop hk hcondition hbody => .whileLoop hk hcondition hbody.loose
  | .expr he => .expr he

theorem Block.loose {body : List Stmt} {w : List Token} : Block true body w → Block false body w
  | .braces hl h hr => .braces hl h.loose hr

theorem Statements.loose {ss : List Stmt} {w : List Token} :
    Statements true ss w → Statements false ss w
  | .nil => .nil
  | .cons hs hss _ => .cons hs.loose hss.loose (fun hstrict => by cases hstrict)

end

/-! ## Two expressions that are one

An expression, and after it one that opens with a parenthesis, are together an expression of the
same slot: the parenthesis opens the arguments of a call of what was read last. The proofs go from
the tightest slot to the loosest.
-/

/-- Tokens that start with an opening parenthesis. -/
def OpensParen (v : List Token) : Prop :=
  ∃ t ∈ v.head?, t.kind = .symbol .leftParen

theorem OpensParen.of_append {u v : List Token} (hu : u ≠ []) (h : OpensParen (u ++ v)) :
    OpensParen u := by
  obtain ⟨t, ht, hk⟩ := h
  exact ⟨t, mem_head?_of_append hu ht, hk⟩

theorem Calls.append {callee e e' : Expr} {u v : List Token} (hu : Calls callee e u)
    (hv : Calls e e' v) : Calls callee e' (u ++ v) := by
  induction hu using Calls.induction with
  | done e => exact hv
  | step hl hargs _ ih =>
    rw [List.cons_append, List.append_assoc]
    exact .step hl hargs (ih hv)

theorem Chain.append {n : Nat} {left e e' : Expr} {u v : List Token} (hu : Chain n left e u)
    (hv : Chain n e e' v) : Chain n left e' (u ++ v) := by
  induction hu using Chain.induction with
  | done e => exact hv
  | step hop hlevel hright _ ih =>
    rw [List.cons_append, List.append_assoc]
    exact .step hop hlevel hright (ih hv)

/-- An operation is one more step of the chain that its left operand is. -/
theorem Derives.binary {n : Nat} {op : Operator} {left right : Expr} {t : Token} {u v : List Token}
    (hleft : Derives (.level (n + 1)) left u) (hop : t.kind.operator? = some op)
    (hlevel : op.tier.level = n + 1) (hright : Derives (.level n) right v) :
    Derives (.level (n + 1)) (.binary op left right left.pos) (u ++ t :: v) := by
  cases hleft with
  | operators hfirst hchain =>
    have hlast : Chain n left (.binary op left right left.pos) (t :: (v ++ [])) :=
      .step hop hlevel hright .done
    rw [List.append_nil] at hlast
    rw [List.append_assoc]
    exact .operators hfirst (hchain.append hlast)

/-- A call of a call is one more list of arguments. -/
theorem Derives.apply {callee : Expr} {args : List Expr} {t : Token} {u v : List Token}
    (hcallee : Derives .call callee u) (ht : t.kind = .symbol .leftParen)
    (hargs : Arguments args v) :
    Derives .call (.call callee args callee.pos) (u ++ t :: v) := by
  cases hcallee with
  | calls hfirst hcalls =>
    have hlast : Calls callee (.call callee args callee.pos) (t :: (v ++ [])) :=
      .step ht hargs .done
    rw [List.append_nil] at hlast
    rw [List.append_assoc]
    exact .calls hfirst (hcalls.append hlast)

/-- Argument lists can follow any expression. -/
theorem Calls.ofCallee {callee e : Expr} {v : List Token} (callee' : Expr)
    (h : Calls callee e v) : ∃ e', Calls callee' e' v := by
  induction h using Calls.induction generalizing callee' with
  | done e => exact ⟨callee', .done⟩
  | step hl hargs _ ih =>
    obtain ⟨e', he'⟩ := ih (.call callee' _ callee'.pos)
    exact ⟨e', .step hl hargs he'⟩

/-- Operators with their right operands can follow any expression. -/
theorem Chain.ofLeft {n : Nat} {left e : Expr} {v : List Token} (left' : Expr)
    (h : Chain n left e v) : ∃ e', Chain n left' e' v := by
  induction h using Chain.induction generalizing left' with
  | done e => exact ⟨left', .done⟩
  | step hop hlevel hright _ ih =>
    obtain ⟨e', he'⟩ := ih (.binary _ left' _ left'.pos)
    exact ⟨e', .step hop hlevel hright he'⟩

/-- Expressions of a slot merge with expressions of the slot that open with a parenthesis. -/
def Merges (slot : Slot) : Prop :=
  ∀ {e e' : Expr} {u v : List Token}, Derives slot e u → Derives slot e' v → OpensParen v →
    ∃ e'', Derives slot e'' (u ++ v)

theorem merges_call : Merges .call := by
  intro e e' u v hu hv hopens
  cases hu with
  | @calls callee _ u₀ u₁ hcallee hcalls =>
    cases hv with
    | @calls callee' _ v₀ v₁ hcallee' hcalls' =>
      obtain ⟨t, ht, hk⟩ := OpensParen.of_append hcallee'.ne_nil hopens
      cases hcallee' with
      | identifier hk' | number hk' =>
        cases ht
        rw [hk] at hk'
        cases hk'
      | @paren _ l r w hl harg hr =>
        -- the parenthesized expression becomes the only argument
        obtain ⟨e'', he''⟩ := hcalls'.ofCallee (.call e [callee'] e.pos)
        have hstep : Calls e e'' (l :: ((w ++ [r]) ++ v₁)) := .step hl (.last harg hr) he''
        refine ⟨e'', ?_⟩
        simpa using Derives.calls hcallee (hcalls.append hstep)

theorem merges_negation : Merges (.level 0) := by
  intro e e' u v hu hv hopens
  induction u generalizing e with
  | nil => exact absurd rfl hu.ne_nil
  | cons t u ih =>
    cases hu with
    | not ht h =>
      obtain ⟨e'', he''⟩ := ih h
      exact ⟨.not e'' t.pos, .not ht he''⟩
    | positive h =>
      cases hv with
      | not ht _ =>
        obtain ⟨t, ⟨⟩, hk⟩ := hopens
        rw [hk] at ht
        cases ht
      | positive hv =>
        obtain ⟨e'', he''⟩ := merges_call h hv hopens
        exact ⟨e'', .positive he''⟩

/-- A chain that is not empty merges in its last operand. -/
theorem Chain.merge {n : Nat} (hmerges : Merges (.level n)) {left e left' e' : Expr}
    {u v₀ v₁ : List Token} (hv₀ : Derives (.level n) left' v₀) (hv₁ : Chain n left' e' v₁)
    (hopens : OpensParen v₀) (h : Chain n left e u) :
    u = [] ∨ ∃ e'', Chain n left e'' (u ++ (v₀ ++ v₁)) := by
  induction h using Chain.induction with
  | done e => exact Or.inl rfl
  | @step op left _ _ _ _ _ hop hlevel hright _ ih =>
    refine Or.inr ?_
    rcases ih with rfl | ⟨e'', he''⟩
    · obtain ⟨right, hright'⟩ := hmerges hright hv₀ hopens
      obtain ⟨e'', he''⟩ := hv₁.ofLeft (.binary op left right left.pos)
      refine ⟨e'', ?_⟩
      simpa using Chain.step hop hlevel hright' he''
    · refine ⟨e'', ?_⟩
      simpa using Chain.step hop hlevel hright he''

theorem merges_level (n : Nat) : Merges (.level n) := by
  induction n with
  | zero => exact merges_negation
  | succ n ih =>
    intro e e' u v hu hv hopens
    cases hu with
    | @operators _ left _ u₀ u₁ hleft hchain =>
      cases hv with
      | @operators _ left' _ v₀ v₁ hleft' hchain' =>
        have hopens₀ := OpensParen.of_append hleft'.ne_nil hopens
        -- the parenthesis goes to the last operand of the chain, which may be the first of all
        rcases Chain.merge ih hleft' hchain' hopens₀ hchain with rfl | ⟨e'', he''⟩
        · obtain ⟨left'', hleft''⟩ := ih hleft hleft' hopens₀
          obtain ⟨e'', he''⟩ := hchain'.ofLeft left''
          refine ⟨e'', ?_⟩
          simpa using Derives.operators hleft'' he''
        · refine ⟨e'', ?_⟩
          simpa using Derives.operators hleft he''

/-- An expression and one after it that opens with a parenthesis are one expression. -/
theorem Derives.merge {e e' : Expr} {u v : List Token} (hu : Derives .assignment e u)
    (hv : Derives .assignment e' v) (hopens : OpensParen v) :
    ∃ e'', Derives .assignment e'' (u ++ v) := by
  -- assignment groups to the right, so the value is merged, and it is shorter
  induction hlen : u.length using Nat.strong_induction_on generalizing e u with
  | _ n ih =>
    cases hu with
    | operand hu =>
      cases hv with
      | operand hv =>
        obtain ⟨e'', he''⟩ := merges_level _ hu hv hopens
        exact ⟨e'', .operand he''⟩
      | assign htarget ht hvalue =>
        have hopens₀ := OpensParen.of_append htarget.ne_nil hopens
        obtain ⟨target, htarget'⟩ := merges_level _ hu htarget hopens₀
        have hassign := Derives.assign htarget' ht hvalue
        exact ⟨_, by simpa using hassign⟩
    | assign htarget ht hvalue =>
      simp only [List.length_append, List.length_cons] at hlen
      obtain ⟨value, hvalue'⟩ := ih _ (by omega) hvalue rfl
      have hassign := Derives.assign htarget ht hvalue'
      exact ⟨_, by simpa using hassign⟩

/-! ## Every derivable text has a strict derivation -/

/-- A statement ends with a semicolon or a brace, unless it is an expression without a semicolon. -/
theorem Statement.getLast {strict : Bool} {s : Stmt} {w : List Token} :
    Statement strict s w →
      (∃ t ∈ w.getLast?, t.kind = .symbol .semicolon ∨ t.kind = .symbol .rightBrace) ∨
        ∃ e, Derives .assignment e w
  | .unset (s := t) _ _ ht => Or.inl ⟨t, rfl, Or.inl ht⟩
  | .set (k := k) (n := n) (a := a) (s := t) (w := w) _ _ _ _ ht =>
    Or.inl ⟨t, mem_getLast?_append rfl (k :: n :: a :: w), Or.inl ht⟩
  | .bare h => by
    rcases h.getLast with ⟨t, ht, hk⟩ | ⟨e, -, he⟩
    · exact Or.inl ⟨t, ht, Or.inr hk⟩
    · exact Or.inr ⟨e, he⟩
  | .ended (w := w) (t := t) _ ht => Or.inl ⟨t, mem_getLast?_append rfl w, Or.inl ht⟩

/-- An expression and a clause after it that opens with a parenthesis are one clause. -/
theorem Clause.join {strict : Bool} {e : Expr} {s : Stmt} {u v : List Token}
    (hu : Derives .assignment e u) (hv : Clause strict s v) (hopens : OpensParen v) :
    ∃ s', Clause strict s' (u ++ v) := by
  cases hv with
  | function hk' _ _ _ _ | loop hk' _ _ _ | whileLoop hk' _ _ =>
    obtain ⟨t, ⟨⟩, hk⟩ := hopens
    rw [hk] at hk'
    cases hk'
  | expr hv =>
    obtain ⟨e', he'⟩ := hu.merge hv hopens
    exact ⟨.expr e', .expr he'⟩

/-- An expression and a statement after it that opens with a parenthesis are one statement. -/
theorem Statement.join {strict : Bool} {e : Expr} {s : Stmt} {u v : List Token}
    (hu : Derives .assignment e u) (hv : Statement strict s v) (hopens : OpensParen v) :
    ∃ s', Statement strict s' (u ++ v) := by
  cases hv with
  | unset hk' _ _ | set hk' _ _ _ _ =>
    obtain ⟨t, ⟨⟩, hk⟩ := hopens
    rw [hk] at hk'
    cases hk'
  | bare hv =>
    obtain ⟨s', hs'⟩ := Clause.join hu hv hopens
    exact ⟨s', .bare hs'⟩
  | @ended _ v t hv ht =>
    obtain ⟨s', hs'⟩ := Clause.join hu hv (OpensParen.of_append hv.ne_nil hopens)
    refine ⟨s', ?_⟩
    rw [← List.append_assoc]
    exact .ended hs' ht

/-- A statement can be put before statements, which may make one statement of the first two. -/
theorem Statements.cons_strict {s : Stmt} {ss : List Stmt} {u v : List Token}
    (hs : Statement true s u) (hss : Statements true ss v) :
    ∃ ss', Statements true ss' (u ++ v) := by
  by_cases hapart : Apart u v
  · exact ⟨s :: ss, .cons hs hss fun _ => hapart⟩
  · obtain ⟨t, ht, hparen, hlast⟩ : ∃ t ∈ v.head?, t.kind = .symbol .leftParen ∧
        ¬ ∃ l ∈ u.getLast?, l.kind = .symbol .semicolon ∨ l.kind = .symbol .rightBrace := by
      simpa only [Apart, not_forall, exists_prop] using hapart
    -- the first statement is an expression without a semicolon
    rcases hs.getLast with hend | ⟨e, he⟩
    · exact absurd hend hlast
    · cases hss with
      | nil => cases ht
      | @cons s' ss' v₀ v₁ hs' hss' hapart' =>
        have hopens : OpensParen v₀ := OpensParen.of_append hs'.ne_nil ⟨t, ht, hparen⟩
        obtain ⟨s'', hs''⟩ := Statement.join he hs' hopens
        refine ⟨s'' :: ss', ?_⟩
        rw [← List.append_assoc]
        refine .cons hs'' hss' fun hstrict t' ht' hparen' => ?_
        obtain ⟨l, hl, hend⟩ := hapart' hstrict t' ht' hparen'
        exact ⟨l, mem_getLast?_append hl u, hend⟩

mutual

theorem Statement.toStrict {s : Stmt} {w : List Token} :
    Statement false s w → ∃ s', Statement true s' w
  | .unset hk hn ht => ⟨_, .unset hk hn ht⟩
  | .set hk hn ha he ht => ⟨_, .set hk hn ha he ht⟩
  | .bare h => by
    obtain ⟨s', hs'⟩ := h.toStrict
    exact ⟨s', .bare hs'⟩
  | .ended h ht => by
    obtain ⟨s', hs'⟩ := h.toStrict
    exact ⟨s', .ended hs' ht⟩

theorem Clause.toStrict {s : Stmt} {w : List Token} : Clause false s w → ∃ s', Clause true s' w
  | .function hk hn hl hparams hbody => by
    obtain ⟨body, hbody'⟩ := hbody.toStrict
    exact ⟨_, .function hk hn hl hparams hbody'⟩
  | .loop hk hn hcount hbody => by
    obtain ⟨body, hbody'⟩ := hbody.toStrict
    exact ⟨_, .loop hk hn hcount hbody'⟩
  | .whileLoop hk hcondition hbody => by
    obtain ⟨body, hbody'⟩ := hbody.toStrict
    exact ⟨_, .whileLoop hk hcondition hbody'⟩
  | .expr he => ⟨_, .expr he⟩

theorem Block.toStrict {body : List Stmt} {w : List Token} :
    Block false body w → ∃ body', Block true body' w
  | .braces hl h hr => by
    obtain ⟨body, hbody⟩ := h.toStrict
    exact ⟨body, .braces hl hbody hr⟩

/-- Statements of the grammar are statements of the strict grammar, though maybe others. -/
theorem Statements.toStrict {ss : List Stmt} {w : List Token} :
    Statements false ss w → ∃ ss', Statements true ss' w
  | .nil => ⟨[], .nil⟩
  | .cons hs hss _ => by
    obtain ⟨s', hs'⟩ := hs.toStrict
    obtain ⟨ss', hss'⟩ := hss.toStrict
    exact Statements.cons_strict hs' hss'

end

/-! ## The end of the text -/

/-- Statements do not end with the mark at the end of the text. -/
theorem Statements.getLast {strict : Bool} {ss : List Stmt} {w : List Token} :
    Statements strict ss w → w = [] ∨ ∃ t ∈ w.getLast?, t.kind ≠ .endOfFile
  | .nil => Or.inl rfl
  | .cons (u := u) hs hss _ => by
    refine Or.inr ?_
    rcases hss.getLast with rfl | ⟨t, ht, hk⟩
    · rw [List.append_nil]
      rcases hs.getLast with ⟨t, ht, hk | hk⟩ | ⟨e, he⟩
      · exact ⟨t, ht, by simp [hk]⟩
      · exact ⟨t, ht, by simp [hk]⟩
      · obtain ⟨t, ht, hcloses⟩ := he.getLast
        refine ⟨t, ht, fun hk => ?_⟩
        rw [hk] at hcloses
        exact hcloses
    · exact ⟨t, mem_getLast?_append ht u, hk⟩

/-- The tokens before the first mark at the end of a text are determined by the text. -/
theorem eq_of_append_endOfFile {w w' rest : List Token} {eof : Token}
    (hw : ∀ t ∈ w, t.kind ≠ .endOfFile) (heq : w ++ [eof] = w' ++ rest) (hrest : rest ≠ [])
    (hend : Parser.atEnd rest = true) : w' = w := by
  rcases List.append_eq_append_iff.mp heq with ⟨a, rfl, ha⟩ | ⟨a, rfl, rfl⟩
  · cases a with
    | nil => rw [List.append_nil]
    | cons t a =>
      rw [List.cons_append, List.cons.injEq] at ha
      exact absurd (List.append_eq_nil_iff.mp ha.2.symm).2 hrest
  · cases a with
    | nil => rw [List.append_nil]
    | cons t a =>
      have hk := Parser.atEnd_iff.mp hend t rfl
      exact absurd hk (hw t (by simp))

theorem ofTokens_eq_ok {ts : List Token} {p : Program} :
    Program.ofTokens ts = .ok p ↔ ∃ rest, Parser.program ts = .ok p rest := by
  rw [Program.ofTokens]
  cases Parser.program ts <;> simp [Reply.toExcept]

/-- What the strict grammar derives is accepted, with the derived tree. -/
theorem Statements.ofTokens {p : Program} {w : List Token} (hp : Statements true p w) {eof : Token}
    (heof : eof.kind = .endOfFile) : Program.ofTokens (w ++ [eof]) = .ok p := by
  rw [ofTokens_eq_ok]
  exact ⟨[eof], Parser.program_eq_ok.mpr ⟨w, rfl, hp, by simp [Parser.atEnd_iff, heof]⟩⟩

/-- An accepted text, up to its mark at the end, is derived by the strict grammar. -/
theorem statements_of_ofTokens {w : List Token} (hw : ∀ t ∈ w, t.kind ≠ .endOfFile) {eof : Token}
    (heof : eof.kind = .endOfFile) {p : Program} (h : Program.ofTokens (w ++ [eof]) = .ok p) :
    Statements true p w := by
  obtain ⟨rest, hrest⟩ := ofTokens_eq_ok.mp h
  obtain ⟨w', heq, hp, hend⟩ := Parser.program_eq_ok.mp hrest
  by_cases hnil : rest = []
  · -- the program cannot have taken the mark itself
    rw [hnil, List.append_nil] at heq
    rcases hp.getLast with hw' | ⟨t, ht, hk⟩
    · rw [hw'] at heq
      exact absurd heq (by simp)
    · rw [← heq, List.getLast?_concat] at ht
      cases ht
      exact absurd heof hk
  · rw [← eq_of_append_endOfFile hw heq hnil hend]
    exact hp

/-- Statements that are kept apart from those after them are derived in sequence. -/
theorem Statements.append {p q : Program} {u v : List Token} (hp : Statements true p u)
    (hq : Statements true q v) (hapart : u = [] ∨ Apart u v) :
    Statements true (p ++ q) (u ++ v) := by
  induction p generalizing u with
  | nil =>
    cases hp
    exact hq
  | cons s ss ih =>
    cases hp with
    | @cons _ _ u₁ u₂ hs hss hbetween =>
      have hnil : u₁ ++ u₂ ≠ [] := fun h => hs.ne_nil (List.append_eq_nil_iff.mp h).1
      have hend : Apart (u₁ ++ u₂) v := hapart.resolve_left hnil
      rw [List.append_assoc]
      by_cases hlast : u₂ = []
      · subst hlast
        rw [List.append_nil] at hend
        exact .cons hs (ih hss (Or.inl rfl)) fun _ => hend
      · refine .cons hs (ih hss (Or.inr fun t ht hopen => ?_)) fun _ t ht => ?_
        · obtain ⟨l, hl, hends⟩ := hend t ht hopen
          rw [List.getLast?_append_of_ne_nil _ hlast] at hl
          exact ⟨l, hl, hends⟩
        · exact hbetween rfl t (mem_head?_of_append hlast ht)

/-- The parser accepts exactly the texts that the grammar derives. The tree it answers with is the
tree of a derivation of the text, so it has no literal of a truth value and no constant without a
value. -/
theorem ofTokens_accepts_iff_derivable (w : List Token) (hw : ∀ t ∈ w, t.kind ≠ .endOfFile)
    (eof : Token) (heof : eof.kind = .endOfFile) :
    ((∃ p, Program.ofTokens (w ++ [eof]) = .ok p) ↔ ∃ p, Derivable p w) ∧
      ∀ p, Program.ofTokens (w ++ [eof]) = .ok p → Derivable p w ∧ p.isWritable = true := by
  refine ⟨⟨?_, ?_⟩, ?_⟩
  · rintro ⟨p, hp⟩
    exact ⟨p, (statements_of_ofTokens hw heof hp).loose⟩
  · rintro ⟨p, hp⟩
    obtain ⟨p', hp'⟩ := hp.toStrict
    exact ⟨p', hp'.ofTokens heof⟩
  · intro p hp
    have hstrict := statements_of_ofTokens hw heof hp
    exact ⟨hstrict.loose, hstrict.areWritable⟩

/-- The tokens of a name and, on the next line, of a name in parentheses. -/
def nameThenParenthesis : List Token :=
  [⟨.identifier "x", ⟨1, 1⟩, ⟨0, 1⟩⟩, ⟨.symbol .leftParen, ⟨2, 1⟩, ⟨2, 3⟩⟩,
    ⟨.identifier "y", ⟨2, 2⟩, ⟨3, 4⟩⟩, ⟨.symbol .rightParen, ⟨2, 3⟩, ⟨4, 5⟩⟩]

/-- Two statements that the parser reads as one call are accepted. -/
theorem nameThenParenthesis_accepted :
    (∀ t ∈ nameThenParenthesis, t.kind ≠ .endOfFile) ∧
      Derivable [.expr (.identifier "x" ⟨1, 1⟩), .expr (.identifier "y" ⟨2, 2⟩)]
        nameThenParenthesis ∧
      ∃ p, Program.ofTokens (nameThenParenthesis ++ [⟨.endOfFile, ⟨2, 4⟩, ⟨5, 5⟩⟩]) = .ok p := by
  have hmarks : ∀ t ∈ nameThenParenthesis, t.kind ≠ .endOfFile := by
    simp [nameThenParenthesis]
  have hname (x : String) (pos : Position) (span : Span) :
      Derives .assignment (.identifier x pos) [⟨.identifier x, pos, span⟩] :=
    (Derives.identifier (t := ⟨.identifier x, pos, span⟩) rfl).primaryToAssignment
  have hparen : Derives .assignment (.identifier "y" ⟨2, 2⟩) nameThenParenthesis.tail :=
    (Derives.paren rfl (hname "y" ⟨2, 2⟩ ⟨3, 4⟩) rfl).primaryToAssignment
  have htwo : Derivable [.expr (.identifier "x" ⟨1, 1⟩), .expr (.identifier "y" ⟨2, 2⟩)]
      nameThenParenthesis :=
    .cons (.bare (.expr (hname "x" ⟨1, 1⟩ ⟨0, 1⟩)))
      (.cons (v := []) (.bare (.expr hparen)) .nil nofun) nofun
  exact ⟨hmarks, htwo, (ofTokens_accepts_iff_derivable _ hmarks _ rfl).1.mpr ⟨_, htwo⟩⟩

end Grammar

end Scriptlet
