import Scriptlet.Proofs.Parser.Recognition

/-! # Programs one after another

The tokens of two programs, one after another, form the statements of the first and then those of the
second, unless the second opens with a parenthesis right after an expression without a semicolon. That
parenthesis is then read as opening arguments: the last expression of the first program and the first
expression of the second become one, and all other statements stay as they are (`ofTokens_concat`).
-/

namespace Scriptlet.Grammar

/-! ## The statements at the seam -/

/-- Tokens that are apart from others are apart from the first part of them. -/
theorem Apart.of_append {u v rest : List Token} (h : Apart u (v ++ rest)) : Apart u v :=
  fun t ht hopen => h t (mem_head?_append ht rest) hopen

/-- Statements consist of the last one and of those before it. -/
theorem Statements.exists_last {p : Program} {w : List Token} (h : Statements true p w)
    (hp : p ≠ []) :
    ∃ p₀ s u v, p = p₀ ++ [s] ∧ w = u ++ v ∧ Statements true p₀ u ∧ Statement true s v ∧
      (u = [] ∨ Apart u v) := by
  induction p generalizing w with
  | nil => exact absurd rfl hp
  | cons s ss ih =>
    cases h with
    | @cons _ _ u v hs hss hapart =>
      by_cases hlast : ss = []
      · subst hlast
        cases hss
        exact ⟨[], s, [], u, rfl, List.append_nil u, .nil, hs, Or.inl rfl⟩
      · obtain ⟨p₀, s', u', v', rfl, rfl, hp₀, hs', hbetween⟩ := ih hss hlast
        have hfirst : Apart u (u' ++ v') := hapart rfl
        refine ⟨s :: p₀, s', u ++ u', v', rfl, (List.append_assoc u u' v').symm,
          .cons hs hp₀ fun _ => hfirst.of_append, hs', Or.inr fun t ht hopen => ?_⟩
        rcases hbetween with rfl | hbetween
        · rw [List.append_nil]
          exact hfirst t ht hopen
        · obtain ⟨l, hl, hend⟩ := hbetween t ht hopen
          exact ⟨l, mem_getLast?_append hl u, hend⟩

/-- A statement that ends with neither a semicolon nor a brace is an expression. -/
theorem Statement.expr_of_getLast {strict : Bool} {s : Stmt} {w : List Token}
    (h : Statement strict s w)
    (hlast : ¬ ∃ t ∈ w.getLast?, t.kind = .symbol .semicolon ∨ t.kind = .symbol .rightBrace) :
    ∃ e, s = .expr e ∧ Derives .assignment e w := by
  cases h with
  | @unset x k n t hk hn ht => exact absurd ⟨t, rfl, Or.inl ht⟩ hlast
  | @set x constant e k n a t w hk hn ha he ht =>
    exact absurd ⟨t, mem_getLast?_append rfl (k :: n :: a :: w), Or.inl ht⟩ hlast
  | bare hs =>
    rcases hs.getLast with ⟨t, ht, hbrace⟩ | hexpr
    · exact absurd ⟨t, ht, Or.inr hbrace⟩ hlast
    · exact hexpr
  | @ended _ w t hs ht => exact absurd ⟨t, mem_getLast?_append rfl w, Or.inl ht⟩ hlast

theorem Clause.expr_of_opensParen {strict : Bool} {s : Stmt} {w : List Token}
    (h : Clause strict s w) (hopens : OpensParen w) :
    ∃ e, s = .expr e ∧ Derives .assignment e w := by
  cases h with
  | function hk' _ _ _ _ | loop hk' _ _ _ | whileLoop hk' _ _ =>
    obtain ⟨t, ⟨⟩, hk⟩ := hopens
    rw [hk] at hk'
    cases hk'
  | expr he => exact ⟨_, rfl, he⟩

/-- A statement that opens with a parenthesis is an expression, in whose place any other expression
may stand. -/
theorem Statement.expr_of_opensParen {strict : Bool} {s : Stmt} {w : List Token}
    (h : Statement strict s w) (hopens : OpensParen w) :
    ∃ e u tail, s = .expr e ∧ w = u ++ tail ∧ Derives .assignment e u ∧
      ∀ e' u', Derives .assignment e' u' → Statement strict (.expr e') (u' ++ tail) := by
  cases h with
  | unset hk' _ _ | set hk' _ _ _ _ =>
    obtain ⟨t, ⟨⟩, hk⟩ := hopens
    rw [hk] at hk'
    cases hk'
  | bare hs =>
    obtain ⟨e, rfl, he⟩ := hs.expr_of_opensParen hopens
    refine ⟨e, w, [], rfl, (List.append_nil w).symm, he, fun e' u' he' => ?_⟩
    rw [List.append_nil]
    exact .bare (.expr he')
  | @ended _ u t hs ht =>
    obtain ⟨e, rfl, he⟩ := hs.expr_of_opensParen (hopens.of_append hs.ne_nil)
    exact ⟨e, u, [t], rfl, rfl, he, fun e' u' he' => .ended (.expr he') ht⟩

/-! ## Two programs that share an expression -/

/-- A program has the statements of two others, except that the last expression of the first and the
first expression of the second are one expression. It is written with the tokens of both, which
stand at the end of the tokens `u` and at the start of the tokens `v`. -/
def MergesInto (p q r : Program) (u v : List Token) : Prop :=
  ∃ p₀ q₀ e e' e'' a b, p = p₀ ++ [.expr e] ∧ q = .expr e' :: q₀ ∧ r = p₀ ++ .expr e'' :: q₀ ∧
    a <:+ u ∧ b <+: v ∧ Derives .assignment e a ∧ Derives .assignment e' b ∧
    Derives .assignment e'' (a ++ b)

theorem MergesInto.length {p q r : Program} {u v : List Token} (h : MergesInto p q r u v) :
    r.length + 1 = p.length + q.length := by
  obtain ⟨p₀, q₀, e, e', e'', a, b, rfl, rfl, rfl, -⟩ := h
  simp only [List.length_append, List.length_cons, List.length_nil]
  omega

/-- Statements that are not kept apart from those after them share an expression with them. -/
theorem Statements.merge {p q : Program} {u v : List Token} (hp : Statements true p u)
    (hq : Statements true q v) (hu : u ≠ []) (hopens : OpensParen v)
    (hlast : ¬ ∃ t ∈ u.getLast?, t.kind = .symbol .semicolon ∨ t.kind = .symbol .rightBrace) :
    ∃ r, Statements true r (u ++ v) ∧ MergesInto p q r u v := by
  have hne : p ≠ [] := by
    rintro rfl
    cases hp
    exact hu rfl
  obtain ⟨p₀, s, u₀, a, rfl, rfl, hp₀, hs, hbetween⟩ := hp.exists_last hne
  have hlast' : ¬ ∃ t ∈ a.getLast?, t.kind = .symbol .semicolon ∨ t.kind = .symbol .rightBrace := by
    rintro ⟨t, ht, hend⟩
    exact hlast ⟨t, mem_getLast?_append ht u₀, hend⟩
  obtain ⟨e, rfl, he⟩ := hs.expr_of_getLast hlast'
  cases hq with
  | nil =>
    obtain ⟨t, ht, -⟩ := hopens
    cases ht
  | @cons s' q₀ v₀ v₁ hs' hq₀ hapart =>
    obtain ⟨e', b, tail, rfl, rfl, he', hreplace⟩ :=
      hs'.expr_of_opensParen (hopens.of_append hs'.ne_nil)
    have hopensB : OpensParen b := (hopens.of_append hs'.ne_nil).of_append he'.ne_nil
    obtain ⟨e'', he''⟩ := he.merge he' hopensB
    -- the merged expression is kept apart from what follows as the second one was
    have htail : Statements true (.expr e'' :: q₀) (a ++ b ++ tail ++ v₁) := by
      refine .cons (hreplace e'' (a ++ b) he'') hq₀ fun hstrict t ht hopen => ?_
      obtain ⟨l, hl, hend⟩ := hapart hstrict t ht hopen
      rw [List.append_assoc a]
      exact ⟨l, mem_getLast?_append hl a, hend⟩
    have hall : Statements true (p₀ ++ .expr e'' :: q₀) (u₀ ++ (a ++ b ++ tail ++ v₁)) := by
      refine hp₀.append htail (hbetween.imp id fun hapart t ht hopen => hapart t ?_ hopen)
      rw [List.append_assoc, List.append_assoc] at ht
      exact mem_head?_of_append he.ne_nil ht
    refine ⟨p₀ ++ .expr e'' :: q₀, ?_, p₀, q₀, e, e', e'', a, b, rfl, rfl, rfl, ?_, ?_, he, he', he''⟩
    · simpa only [List.append_assoc] using hall
    · exact List.suffix_append u₀ a
    · rw [List.append_assoc]
      exact List.prefix_append b (tail ++ v₁)

/-- The tokens of two programs, one after another, form the statements of both, if the second
program does not open with a parenthesis or the first ends with a semicolon or a brace. Otherwise
they form a program with one statement less, in which the last expression of the first program and
the first expression of the second are one. -/
theorem ofTokens_concat {u v : List Token} {eof eof' eof'' : Token} {p q : Program}
    (hu : ∀ t ∈ u, t.kind ≠ .endOfFile) (hv : ∀ t ∈ v, t.kind ≠ .endOfFile)
    (heof : eof.kind = .endOfFile) (heof' : eof'.kind = .endOfFile)
    (heof'' : eof''.kind = .endOfFile) (hune : u ≠ [])
    (hp : Program.ofTokens (u ++ [eof]) = .ok p) (hq : Program.ofTokens (v ++ [eof']) = .ok q) :
    ((∀ t ∈ v.head?, t.kind ≠ .symbol .leftParen) ∨
        (∃ t ∈ u.getLast?, t.kind = .symbol .semicolon ∨ t.kind = .symbol .rightBrace) →
      Program.ofTokens (u ++ v ++ [eof'']) = .ok (p ++ q)) ∧
    (¬ ((∀ t ∈ v.head?, t.kind ≠ .symbol .leftParen) ∨
        ∃ t ∈ u.getLast?, t.kind = .symbol .semicolon ∨ t.kind = .symbol .rightBrace) →
      ∃ r, Program.ofTokens (u ++ v ++ [eof'']) = .ok r ∧ r.length + 1 = p.length + q.length ∧
        MergesInto p q r u v) := by
  have hstatements := statements_of_ofTokens hu heof hp
  have hstatements' := statements_of_ofTokens hv heof' hq
  refine ⟨fun hapart => ?_, fun hseam => ?_⟩
  · refine (hstatements.append hstatements' (Or.inr fun t ht hopen => ?_)).ofTokens heof''
    exact hapart.resolve_left fun hfirst => hfirst t ht hopen
  · rw [not_or] at hseam
    have hopens : OpensParen v := by
      obtain ⟨t, ht, hopen⟩ : ∃ t ∈ v.head?, t.kind = .symbol .leftParen := by
        simpa only [not_forall, not_not, exists_prop] using hseam.1
      exact ⟨t, ht, hopen⟩
    obtain ⟨r, hr, hmerged⟩ := hstatements.merge hstatements' hune hopens hseam.2
    exact ⟨r, hr.ofTokens heof'', hmerged.length, hmerged⟩

/-- A name, without or with a semicolon, and a name in parentheses after it. -/
theorem nameThenParenthesis_concat :
    let x : Token := ⟨.identifier "x", ⟨1, 1⟩, ⟨0, 1⟩⟩
    let semicolon : Token := ⟨.symbol .semicolon, ⟨1, 2⟩, ⟨1, 2⟩⟩
    let v := nameThenParenthesis.tail
    let eof : Token := ⟨.endOfFile, ⟨2, 4⟩, ⟨5, 5⟩⟩
    (∃ r, Program.ofTokens ([x] ++ v ++ [eof]) = .ok r ∧ r.length = 1) ∧
      Program.ofTokens ([x, semicolon] ++ v ++ [eof]) =
        .ok [.expr (.identifier "x" ⟨1, 1⟩), .expr (.identifier "y" ⟨2, 2⟩)] := by
  intro x semicolon v eof
  have heof : eof.kind = .endOfFile := rfl
  have hx : ∀ t ∈ [x], t.kind ≠ .endOfFile := by simp [x]
  have hend : ∀ t ∈ [x, semicolon], t.kind ≠ .endOfFile := by simp [x, semicolon]
  have hv : ∀ t ∈ v, t.kind ≠ .endOfFile := by simp [v, nameThenParenthesis]
  have hp : Program.ofTokens ([x] ++ [eof]) = .ok [.expr (.identifier "x" ⟨1, 1⟩)] := rfl
  have hp' : Program.ofTokens ([x, semicolon] ++ [eof]) = .ok [.expr (.identifier "x" ⟨1, 1⟩)] :=
    rfl
  have hq : Program.ofTokens (v ++ [eof]) = .ok [.expr (.identifier "y" ⟨2, 2⟩)] := rfl
  refine ⟨?_, ?_⟩
  · obtain ⟨r, hr, hlength, -⟩ :=
      (ofTokens_concat hx hv heof heof heof (by simp) hp hq).2
        (by simp [v, x, nameThenParenthesis])
    refine ⟨r, hr, ?_⟩
    simpa using hlength
  · exact (ofTokens_concat hend hv heof heof heof (by simp) hp' hq).1
      (Or.inr ⟨semicolon, rfl, Or.inl rfl⟩)

end Scriptlet.Grammar
