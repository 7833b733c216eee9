import Scriptlet.Proofs.Parser.Rejection

/-! # Rejected parameters

Parameters are read as expressions, and that they are names is asked only when their list is closed.
So a token can be rejected in the list, or a parenthesis that would close it, although the tokens
before it have left the grammar already: `fn f(1,)` and `fn f(a,)` are both rejected at their closing
parenthesis, but only the second could have been continued.

The tokens before a rejected one can be continued to a program exactly if what stands in an open list
of parameters is the start of parameters (`continues_iff_parameters`). After a comma this is the
question whether the expressions before it are names (`continues_after_comma_iff`).
-/

namespace Scriptlet.Grammar

/-! ## Functions in accepted texts -/

/-- Tokens that start with the name and the parameters of a function. -/
def NamesFunction (w : List Token) : Prop :=
  ∃ n l x xs u v, w = n :: l :: (u ++ v) ∧ n.kind = .identifier x ∧ l.kind = .symbol .leftParen ∧
    Params xs u

/-- After every keyword of functions, a name and parameters come next. -/
def FunctionsNamed : List Token → Prop
  | [] => True
  | t :: w => (t.kind = .keyword .fnKw → NamesFunction w) ∧ FunctionsNamed w

section FunctionsNamed

variable {strict : Bool} {t k : Token} {u v w : List Token}

theorem NamesFunction.append (h : NamesFunction u) (v : List Token) : NamesFunction (u ++ v) := by
  obtain ⟨n, l, x, xs, params, after, rfl, hn, hl, hparams⟩ := h
  exact ⟨n, l, x, xs, params, after ++ v, by simp, hn, hl, hparams⟩

theorem FunctionsNamed.append (hu : FunctionsNamed u) (hv : FunctionsNamed v) :
    FunctionsNamed (u ++ v) := by
  induction u with
  | nil => exact hv
  | cons t u ih => exact ⟨fun ht => (hu.1 ht).append v, ih hu.2⟩

theorem FunctionsNamed.cons (h : FunctionsNamed w) (ht : t.kind ≠ .keyword .fnKw) :
    FunctionsNamed (t :: w) :=
  ⟨fun hfn => absurd hfn ht, h⟩

/-- Without the keyword of functions, there is nothing to ask. -/
theorem functionsNamed_of_ne (h : ∀ t ∈ w, t.kind ≠ .keyword .fnKw) : FunctionsNamed w := by
  induction w with
  | nil => trivial
  | cons t w ih =>
    rw [List.forall_mem_cons] at h
    exact (ih h.2).cons h.1

/-- The keyword may stand anywhere. -/
theorem FunctionsNamed.namesFunction (h : FunctionsNamed (u ++ k :: v))
    (hk : k.kind = .keyword .fnKw) : NamesFunction v := by
  induction u with
  | nil => exact h.1 hk
  | cons t u ih => exact ih h.2

/-- Expressions hold no functions. -/
theorem Derives.functionsNamed {slot : Slot} {x : Expr} (h : Derives slot x w) :
    FunctionsNamed w :=
  functionsNamed_of_ne h.ne_function

theorem Params.functionsNamed {xs : List String} (h : Params xs w) : FunctionsNamed w := by
  obtain ⟨es, hes, -⟩ := params_iff.mp h
  exact functionsNamed_of_ne hes.ne_function

mutual

/-- By recursion on the derivation. Only a function has the keyword, and its name and parameters come
next. -/
theorem Statement.functionsNamed {s : Stmt} {w : List Token} :
    Statement strict s w → FunctionsNamed w
  | .unset hk hn hs => functionsNamed_of_ne (by simp [hk, hn, hs])
  | .set (s := last) hk hn ha h hs => by
    have hend : FunctionsNamed [last] := functionsNamed_of_ne (by simp [hs])
    refine (((h.functionsNamed.append hend).cons (by simp [ha])).cons (by simp [hn])).cons ?_
    rw [hk, declarationKeyword]
    split <;> simp
  | .bare h => h.functionsNamed
  | .ended h ht => h.functionsNamed.append (functionsNamed_of_ne (by simp [ht]))

theorem Clause.functionsNamed {s : Stmt} {w : List Token} : Clause strict s w → FunctionsNamed w
  | .function hk hn hl hparams hbody =>
    ⟨fun _ => ⟨_, _, _, _, _, _, rfl, hn, hl, hparams⟩,
      ((hparams.functionsNamed.append hbody.functionsNamed).cons (by simp [hl])).cons (by simp [hn])⟩
  | .loop hk hn _ hbody => (hbody.functionsNamed.cons (by simp [hn])).cons (by simp [hk])
  | .whileLoop hk h hbody => (h.functionsNamed.append hbody.functionsNamed).cons (by simp [hk])
  | .expr h => h.functionsNamed

theorem Block.functionsNamed {body : List Stmt} {w : List Token} :
    Block strict body w → FunctionsNamed w
  | .braces hl h hr =>
    (h.functionsNamed.append (functionsNamed_of_ne (by simp [hr]))).cons (by simp [hl])

theorem Statements.functionsNamed {ss : List Stmt} {w : List Token} :
    Statements strict ss w → FunctionsNamed w
  | .nil => trivial
  | .cons h hss _ => h.functionsNamed.append hss.functionsNamed

end

end FunctionsNamed

/-! ## Open lists -/

/-- No other function begins at the name of a function, at its parenthesis, or among tokens without
the keyword after it. -/
theorem eq_nil_of_function {k n l k' : Token} {x : String} {a u v : List Token}
    (hn : n.kind = .identifier x) (hl : l.kind = .symbol .leftParen)
    (hu : ∀ t ∈ u, t.kind ≠ .keyword .fnKw) (hk' : k'.kind = .keyword .fnKw)
    (heq : k :: n :: l :: u = a ++ k' :: v) : a = [] := by
  match a with
  | [] => rfl
  | [_] =>
    obtain ⟨-, rfl, -⟩ : _ ∧ n = k' ∧ _ := by simpa using heq
    rw [hn] at hk'
    cases hk'
  | [_, _] =>
    obtain ⟨-, -, rfl, -⟩ : _ ∧ _ ∧ l = k' ∧ _ := by simpa using heq
    rw [hl] at hk'
    cases hk'
  | _ :: _ :: _ :: a =>
    obtain ⟨-, -, -, rfl⟩ : _ ∧ _ ∧ _ ∧ u = a ++ k' :: v := by simpa using heq
    exact absurd hk' (hu k' (by simp))

/-- The list of parameters that is open is that of the last function. -/
theorem OpenParameters.unique {w between between' : List Token} (h : OpenParameters w between)
    (h' : OpenParameters w between') : between = between' := by
  obtain ⟨before, k, n, l, rfl, hk, ⟨x, hn⟩, hl, -, hnone⟩ := h
  obtain ⟨before', k', n', l', heq, hk', ⟨x', hn'⟩, hl', -, hnone'⟩ := h'
  -- of the two functions, the later one would begin in the list of the other
  rcases List.append_eq_append_iff.mp heq with ⟨a, rfl, htail⟩ | ⟨a, rfl, htail⟩
  · obtain rfl := eq_nil_of_function hn hl hnone hk' htail
    exact (List.cons.inj (List.cons.inj (List.cons.inj htail).2).2).2
  · obtain rfl := eq_nil_of_function hn' hl' hnone' hk htail
    exact (List.cons.inj (List.cons.inj (List.cons.inj htail).2).2).2.symm

/-- Tokens in an open list of parameters are the start of them, if the list is closed later. -/
theorem exists_params_of_open {xs : List String} {between after u v : List Token}
    (hopen : (openParens 0 between).isSome) (hu : Params xs u)
    (heq : between ++ after = u ++ v) : ∃ rest, Params xs (between ++ rest) := by
  rcases List.append_eq_append_iff.mp heq with ⟨rest, rfl, -⟩ | ⟨rest, rfl, -⟩
  · exact ⟨rest, hu⟩
  · -- the parenthesis at the end of parameters closes one that was not opened in them
    obtain ⟨es, hes, -⟩ := params_iff.mp hu
    obtain ⟨z, r, rfl, hr, hz⟩ := hes.neutral
    have hclosed : openParens 0 (z ++ [r] ++ rest) = none := by
      rw [List.append_assoc, openParens_append, hz 0, Option.bind_some, List.singleton_append,
        openParens, if_neg (by simp [Parser.isSymbol_iff, hr]),
        if_pos (Parser.isSymbol_iff.mpr hr), if_pos rfl]
    rw [hclosed] at hopen
    cases hopen

/-- In the start of an accepted text, before the end of its statements, an open list of parameters
can be continued. -/
theorem Statements.parametersContinue {strict : Bool} {ss : List Stmt} {p q : List Token}
    (h : Statements strict ss (p ++ q)) : ParametersContinue p := by
  rintro between ⟨before, k, n, l, rfl, hk, -, -, hopen, -⟩
  have hnamed := h.functionsNamed
  rw [List.append_assoc] at hnamed
  obtain ⟨n', l', x, xs, u, v, heq, -, -, hu⟩ := hnamed.namesFunction hk
  obtain ⟨-, -, heq⟩ : n = n' ∧ l = l' ∧ between ++ q = u ++ v := by simpa using heq
  exact ⟨xs, exists_params_of_open hopen hu heq⟩

/-- The tokens before a rejected one can be continued to a program exactly if an open list of
parameters among them can be continued to parameters. -/
theorem continues_iff_parameters {p rest : List Token} {t : Token} {e : SyntaxError}
    (h : Parser.program (p ++ [t] ++ rest) = .error e rest) (he : e ≠ .endOfInput) :
    (∃ q P, Program.ofTokens (p ++ q) = .ok P) ↔ ParametersContinue p := by
  obtain ⟨w, heq, hbreak⟩ := Parser.program_eq_error.mp ⟨h, he⟩
  obtain rfl := List.append_cancel_right heq
  refine ⟨?_, hbreak.continues⟩
  rintro ⟨q, P, hP⟩
  obtain ⟨rest', hok⟩ := ofTokens_eq_ok.mp hP
  obtain ⟨w, heq, hw, hend⟩ := Parser.program_eq_ok.mp hok
  rcases List.append_eq_append_iff.mp heq with ⟨a, rfl, -⟩ | ⟨a, rfl, rfl⟩
  · exact hw.parametersContinue
  · cases a with
    | nil =>
      rw [List.append_nil]
      exact Statements.parametersContinue (q := []) (by rwa [List.append_nil])
    | cons mark a =>
      -- the text would end before the rejected token
      have hend : Parser.atEnd (mark :: a ++ [t] ++ rest) = true := hend
      have haccepted : Parser.program (w ++ mark :: a ++ [t] ++ rest) =
          .ok P (mark :: a ++ [t] ++ rest) :=
        Parser.program_eq_ok.mpr ⟨w, by simp, hw, hend⟩
      rw [h] at haccepted
      cases haccepted

/-! ## After a comma -/

/-- A separator shows where the expression before it ends. -/
theorem Derives.unique_before_separator {x y : Expr} {u v : List Token} {a b : Token}
    {s s' : Symbol} {us vs : List Token} (hu : Derives .assignment x u)
    (hv : Derives .assignment y v) (ha : a.kind = .symbol s) (hs : separates s = true)
    (hb : b.kind = .symbol s') (hs' : separates s' = true) (heq : u ++ a :: us = v ++ b :: vs) :
    x = y ∧ a = b ∧ us = vs := by
  have hreads := Parser.expressionWithin_reads ((u ++ a :: us).length + 1) (u ++ a :: us)
  have hx := (hreads x (a :: us) (Nat.lt_succ_self _)).mpr
    ⟨u, rfl, hu, stops_separator .assignment ha hs us⟩
  have hy := (hreads y (b :: vs) (Nat.lt_succ_self _)).mpr
    ⟨v, heq, hv, stops_separator .assignment hb hs' vs⟩
  rw [hx] at hy
  simpa using hy

/-- If parameters start with an expression and a comma, then the expression is a name, and more
parameters come after the comma. -/
theorem Params.of_comma {xs : List String} {x : Expr} {c : Token} {u v : List Token}
    (h : Params xs (u ++ c :: v)) (hu : Derives .assignment x u) (hc : c.kind = .symbol .comma) :
    (∃ name p, x = .identifier name p) ∧ ∃ y ys, Params (y :: ys) v := by
  generalize hw : u ++ c :: v = w at h
  cases h with
  | none _ =>
    have hpos := hu.length_pos
    have hlen := congrArg List.length hw
    simp only [List.length_append, List.length_cons, List.length_nil] at hlen
    omega
  | last hname hr =>
    obtain ⟨p, hp⟩ := hname.derives
    obtain ⟨-, rfl, -⟩ := hu.unique_before_separator hp hc rfl hr rfl hw
    rw [hc] at hr
    cases hr
  | more hname hc' hmore =>
    obtain ⟨p, hp⟩ := hname.derives
    obtain ⟨rfl, -, rfl⟩ := hu.unique_before_separator hp hc rfl hc' rfl hw
    exact ⟨⟨_, p, rfl⟩, _, _, hmore⟩

/-- Expressions, each with a comma after it. -/
inductive ItemsWithCommas : List Expr → List Token → Prop
  | nil : ItemsWithCommas [] []
  | cons {x : Expr} {es : List Expr} {u v : List Token} {c : Token} :
      Derives .assignment x u → c.kind = .symbol .comma → ItemsWithCommas es v →
      ItemsWithCommas (x :: es) (u ++ c :: v)

/-- Expressions with commas after them are the start of parameters exactly if they are names. -/
theorem ItemsWithCommas.exists_params_iff {es : List Expr} {w : List Token}
    (h : ItemsWithCommas es w) :
    (∃ xs v, Params xs (w ++ v)) ↔ ∃ xs, Parser.paramNames es = .ok xs := by
  constructor
  · rintro ⟨xs, v, hparams⟩
    induction h generalizing xs with
    | nil => exact ⟨[], rfl⟩
    | cons hu hc _ ih =>
      rw [List.append_assoc] at hparams
      obtain ⟨⟨name, p, rfl⟩, y, ys, hmore⟩ := hparams.of_comma hu hc
      obtain ⟨names, hnames⟩ := ih (y :: ys) hmore
      exact ⟨_, paramNames_cons_eq_ok.mpr ⟨name, p, names, rfl, hnames, rfl⟩⟩
  · rintro ⟨xs, hnames⟩
    -- after the last comma one more name is needed
    suffices hmore : ∃ y ys v, Params (y :: ys) (w ++ v) by
      obtain ⟨y, ys, v, hparams⟩ := hmore
      exact ⟨y :: ys, v, hparams⟩
    induction h generalizing xs with
    | nil =>
      have hname : Param "x" [filler (.identifier "x")] := .name rfl
      exact ⟨"x", [], [_, filler (.symbol .rightParen)], .last hname rfl⟩
    | cons hu hc _ ih =>
      obtain ⟨name, p, names, rfl, hrest, -⟩ := paramNames_cons_eq_ok.mp hnames
      obtain ⟨y, ys, v, hparams⟩ := ih names hrest
      refine ⟨name, y :: ys, v, ?_⟩
      rw [List.append_assoc]
      exact .more (hu.param rfl) hc hparams

/-- Let a token be rejected where an open list of parameters has a comma or nothing before it, as a
parenthesis is that would close the list after a comma. The tokens before it can be continued to a
program exactly if the expressions in the list are names. -/
theorem continues_after_comma_iff {p rest listed : List Token} {t : Token} {e : SyntaxError}
    {es : List Expr} (h : Parser.program (p ++ [t] ++ rest) = .error e rest)
    (he : e ≠ .endOfInput) (hopen : OpenParameters p listed) (hes : ItemsWithCommas es listed) :
    (∃ q P, Program.ofTokens (p ++ q) = .ok P) ↔ ∃ xs, Parser.paramNames es = .ok xs := by
  rw [continues_iff_parameters h he, ← hes.exists_params_iff]
  refine ⟨fun hcontinue => hcontinue listed hopen, ?_⟩
  intro hparams between hbetween
  rwa [hbetween.unique hopen]

end Scriptlet.Grammar
