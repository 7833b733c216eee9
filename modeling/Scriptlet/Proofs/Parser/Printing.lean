import Scriptlet.Proofs.Parser.Recognition

/-! # Printing and parsing again

A tree is printed with parentheses around each expression that binds more loosely than its slot
allows, and with as many more as one likes. `Printed` and the relations beside it list all such
texts, and `printStatements` gives the one with the fewest parentheses. Whatever text is chosen,
parsing it gives back the tree, except for the positions, which are those of the text.

Texts are lists of token kinds here: where the tokens stand does not matter.
-/

namespace Scriptlet

/-! ## Trees without their positions -/

mutual

/-- An expression with all positions forgotten. -/
def Expr.erasePositions : Expr → Expr
  | .assign target value _ => .assign target.erasePositions value.erasePositions .nowhere
  | .binary op left right _ => .binary op left.erasePositions right.erasePositions .nowhere
  | .not operand _ => .not operand.erasePositions .nowhere
  | .call callee arguments _ =>
    .call callee.erasePositions (Expr.eraseAllPositions arguments) .nowhere
  | .identifier name _ => .identifier name .nowhere
  | .number value _ => .number value .nowhere
  | .bool value _ => .bool value .nowhere

/-- Expressions with all positions forgotten. -/
def Expr.eraseAllPositions : List Expr → List Expr
  | [] => []
  | e :: es => e.erasePositions :: Expr.eraseAllPositions es

end

mutual

/-- A statement with all positions forgotten. -/
def Stmt.erasePositions : Stmt → Stmt
  | .declare name value constant _ =>
    .declare name (value.map Expr.erasePositions) constant .nowhere
  | .function name params body _ => .function name params (Stmt.eraseAllPositions body) .nowhere
  | .loop count body _ => .loop count (Stmt.eraseAllPositions body) .nowhere
  | .whileLoop condition body _ =>
    .whileLoop condition.erasePositions (Stmt.eraseAllPositions body) .nowhere
  | .expr value => .expr value.erasePositions

/-- Statements with all positions forgotten. -/
def Stmt.eraseAllPositions : List Stmt → List Stmt
  | [] => []
  | s :: ss => s.erasePositions :: Stmt.eraseAllPositions ss

end

/-- A program with all positions forgotten. -/
abbrev Program.erasePositions (p : Program) : Program :=
  Stmt.eraseAllPositions p

namespace Printing

open Grammar

/-! ## Slots of forms -/

/-- The tightest slot that the form of an expression has without parentheses. -/
def formSlot : Expr → Slot
  | .assign _ _ _ => .assignment
  | .binary op _ _ _ => .level op.tier.level
  | .not _ _ => .level 0
  | .call _ _ _ => .call
  | .identifier _ _ | .number _ _ | .bool _ _ => .primary

/-- Whether what is written in one slot may stand in another. -/
def fits : Slot → Slot → Bool
  | .primary, _ => true
  | .call, .primary => false
  | .call, _ => true
  | .level m, .level n => decide (m ≤ n)
  | .level m, .assignment => decide (m ≤ Tier.logical.level)
  | .level _, _ => false
  | .assignment, .assignment => true
  | .assignment, _ => false

/-- Every form may stand as a whole expression. -/
theorem fits_assignment (e : Expr) : fits (formSlot e) .assignment = true := by
  cases e with
  | binary op _ _ _ => exact decide_eq_true (level_le_logical op)
  | _ => rfl

/-- An expression may stand in every slot that the slot it is written in fits. -/
theorem derives_of_fits {slot slot' : Slot} {e : Expr} {w : List Token} (h : Derives slot e w)
    (hfits : fits slot slot' = true) : Derives slot' e w := by
  cases slot with
  | primary =>
    cases slot' with
    | primary => exact h
    | call => exact h.toCall
    | level n => exact h.toCall.callToLevel
    | assignment => exact h.primaryToAssignment
  | call =>
    cases slot' with
    | primary => cases hfits
    | call => exact h
    | level n => exact h.callToLevel
    | assignment => exact .operand h.callToLevel
  | level m =>
    cases slot' with
    | primary | call => cases hfits
    | level n => exact h.toLevel (of_decide_eq_true hfits)
    | assignment => exact .operand (h.toLevel (of_decide_eq_true hfits))
  | assignment =>
    cases slot' with
    | assignment => exact h
    | _ => cases hfits

/-! ## Printed texts -/

mutual

/-- The texts of an expression in a slot: its form, if that fits the slot, or a text of it in
parentheses. -/
inductive Printed : Slot → Expr → List Token.Kind → Prop
  | form {slot : Slot} {e : Expr} {ks : List Token.Kind} :
      fits (formSlot e) slot = true → PrintedForm e ks → Printed slot e ks
  | paren {slot : Slot} {e : Expr} {ks : List Token.Kind} :
      Printed .assignment e ks →
      Printed slot e (.symbol .leftParen :: (ks ++ [.symbol .rightParen]))

/-- The texts of an expression without parentheses around it. -/
inductive PrintedForm : Expr → List Token.Kind → Prop
  | assign {target value : Expr} {p : Position} {ks ls : List Token.Kind} :
      Printed .logical target ks → Printed .assignment value ls →
      PrintedForm (.assign target value p) (ks ++ .symbol .assign :: ls)
  | binary {op : Operator} {n : Nat} {left right : Expr} {p : Position} {ks ls : List Token.Kind} :
      op.tier.level = n + 1 → Printed (.level (n + 1)) left ks → Printed (.level n) right ls →
      PrintedForm (.binary op left right p) (ks ++ .symbol op.symbol :: ls)
  | not {e : Expr} {p : Position} {ks : List Token.Kind} :
      Printed (.level 0) e ks → PrintedForm (.not e p) (.symbol .not :: ks)
  | call {callee : Expr} {args : List Expr} {p : Position} {ks ls : List Token.Kind} :
      Printed .call callee ks → PrintedArguments args ls →
      PrintedForm (.call callee args p) (ks ++ .symbol .leftParen :: ls)
  | identifier {x : String} {p : Position} : PrintedForm (.identifier x p) [.identifier x]
  | number {x : Float} {p : Position} : PrintedForm (.number x p) [.number x]

/-- The texts of arguments, with the closing parenthesis. -/
inductive PrintedArguments : List Expr → List Token.Kind → Prop
  | none : PrintedArguments [] [.symbol .rightParen]
  | last {e : Expr} {ks : List Token.Kind} :
      Printed .assignment e ks → PrintedArguments [e] (ks ++ [.symbol .rightParen])
  | more {e e' : Expr} {es : List Expr} {ks ls : List Token.Kind} :
      Printed .assignment e ks → PrintedArguments (e' :: es) ls →
      PrintedArguments (e :: e' :: es) (ks ++ .symbol .comma :: ls)

end

/-- The text of parameters, with the closing parenthesis. -/
def paramKinds : List String → List Token.Kind
  | [] => [.symbol .rightParen]
  | [x] => [.identifier x, .symbol .rightParen]
  | x :: y :: xs => .identifier x :: .symbol .comma :: paramKinds (y :: xs)

mutual

/-- The texts of a statement without its semicolon. -/
inductive PrintedStatement : Stmt → List Token.Kind → Prop
  | unset {x : String} {p : Position} :
      PrintedStatement (.declare x none false p) [.keyword .letKw, .identifier x]
  | set {x : String} {e : Expr} {constant : Bool} {p : Position} {ks : List Token.Kind} :
      Printed .assignment e ks →
      PrintedStatement (.declare x (some e) constant p)
        (.keyword (declarationKeyword constant) :: .identifier x :: .symbol .assign :: ks)
  | function {x : String} {xs : List String} {body : List Stmt} {p : Position}
      {ks : List Token.Kind} :
      PrintedBlock body ks →
      PrintedStatement (.function x xs body p)
        (.keyword .fnKw :: .identifier x :: .symbol .leftParen :: (paramKinds xs ++ ks))
  | loop {count : Nat} {x : Float} {body : List Stmt} {p : Position} {ks : List Token.Kind} :
      Number.IsCount x count → PrintedBlock body ks →
      PrintedStatement (.loop count body p) (.keyword .forKw :: .number x :: ks)
  | whileLoop {condition : Expr} {body : List Stmt} {p : Position} {ks ls : List Token.Kind} :
      Printed .assignment condition ks → PrintedBlock body ls →
      PrintedStatement (.whileLoop condition body p) (.keyword .whileKw :: (ks ++ ls))
  | expr {e : Expr} {ks : List Token.Kind} :
      Printed .assignment e ks → PrintedStatement (.expr e) ks

/-- The texts of a block. -/
inductive PrintedBlock : List Stmt → List Token.Kind → Prop
  | braces {body : List Stmt} {ks : List Token.Kind} :
      PrintedStatements body ks →
      PrintedBlock body (.symbol .leftBrace :: (ks ++ [.symbol .rightBrace]))

/-- The texts of statements, of which each ends with a semicolon. -/
inductive PrintedStatements : List Stmt → List Token.Kind → Prop
  | nil : PrintedStatements [] []
  | cons {s : Stmt} {ss : List Stmt} {ks ls : List Token.Kind} :
      PrintedStatement s ks → PrintedStatements ss ls →
      PrintedStatements (s :: ss) (ks ++ .symbol .semicolon :: ls)

end

/-! ## The shortest text -/

/-- The text of an expression in a slot, made of the text of its form. -/
def enclose (slot : Slot) (e : Expr) (ks : List Token.Kind) : List Token.Kind :=
  if fits (formSlot e) slot then ks
  else .symbol .leftParen :: (ks ++ [.symbol .rightParen])

mutual

/-- The text of an expression without parentheses around it. -/
def printForm : Expr → List Token.Kind
  | .assign target value _ =>
    enclose .logical target (printForm target) ++
      .symbol .assign :: enclose .assignment value (printForm value)
  | .binary op left right _ =>
    enclose (.level op.tier.level) left (printForm left) ++
      .symbol op.symbol :: enclose (.level (op.tier.level - 1)) right (printForm right)
  | .not operand _ => .symbol .not :: enclose (.level 0) operand (printForm operand)
  | .call callee arguments _ =>
    enclose .call callee (printForm callee) ++ .symbol .leftParen :: printArguments arguments
  | .identifier x _ => [.identifier x]
  | .number x _ => [.number x]
  | .bool _ _ => []

/-- The text of arguments, with the closing parenthesis. -/
def printArguments : List Expr → List Token.Kind
  | [] => [.symbol .rightParen]
  | [e] => printForm e ++ [.symbol .rightParen]
  | e :: e' :: es => printForm e ++ .symbol .comma :: printArguments (e' :: es)

end

mutual

/-- The text of a statement without its semicolon. -/
def printStatement : Stmt → List Token.Kind
  | .declare x none constant _ => [.keyword (declarationKeyword constant), .identifier x]
  | .declare x (some value) constant _ =>
    .keyword (declarationKeyword constant) :: .identifier x :: .symbol .assign :: printForm value
  | .function x xs body _ =>
    .keyword .fnKw :: .identifier x :: .symbol .leftParen :: (paramKinds xs ++
      .symbol .leftBrace :: (printStatements body ++ [.symbol .rightBrace]))
  | .loop count body _ =>
    .keyword .forKw :: .number (Number.ofDecimal count 0) ::
      .symbol .leftBrace :: (printStatements body ++ [.symbol .rightBrace])
  | .whileLoop condition body _ =>
    .keyword .whileKw :: (printForm condition ++
      .symbol .leftBrace :: (printStatements body ++ [.symbol .rightBrace]))
  | .expr value => printForm value

/-- The text of statements, of which each ends with a semicolon. -/
def printStatements : List Stmt → List Token.Kind
  | [] => []
  | s :: ss => printStatement s ++ .symbol .semicolon :: printStatements ss

end

theorem printed_enclose {slot : Slot} {e : Expr} {ks : List Token.Kind} (h : PrintedForm e ks) :
    Printed slot e (enclose slot e ks) := by
  rw [enclose]
  by_cases hfits : fits (formSlot e) slot = true
  · rw [if_pos hfits]
    exact .form hfits h
  · rw [if_neg hfits]
    exact .paren (.form (fits_assignment e) h)

theorem printed_whole {e : Expr} {ks : List Token.Kind} (h : PrintedForm e ks) :
    Printed .assignment e ks :=
  .form (fits_assignment e) h

mutual

theorem printedForm_printForm : ∀ e : Expr, e.isWritable = true → PrintedForm e (printForm e)
  | .assign target value _, h => by
    rw [Expr.isWritable, Bool.and_eq_true] at h
    rw [printForm]
    exact .assign (printed_enclose (printedForm_printForm target h.1))
      (printed_enclose (printedForm_printForm value h.2))
  | .binary op left right _, h => by
    rw [Expr.isWritable, Bool.and_eq_true] at h
    -- operators are looser than negation, so there is a tighter level for the right operand
    obtain ⟨n, hn⟩ := Nat.exists_eq_succ_of_ne_zero (level_pos op).ne'
    rw [printForm, hn]
    exact .binary hn (printed_enclose (printedForm_printForm left h.1))
      (printed_enclose (printedForm_printForm right h.2))
  | .not operand _, h => by
    rw [Expr.isWritable] at h
    rw [printForm]
    exact .not (printed_enclose (printedForm_printForm operand h))
  | .call callee args _, h => by
    rw [Expr.isWritable, Bool.and_eq_true] at h
    rw [printForm]
    exact .call (printed_enclose (printedForm_printForm callee h.1))
      (printedArguments_printArguments args h.2)
  | .identifier x _, _ => by
    rw [printForm]
    exact .identifier
  | .number x _, _ => by
    rw [printForm]
    exact .number
  | .bool _ _, h => by
    rw [Expr.isWritable] at h
    cases h

theorem printedArguments_printArguments :
    ∀ es : List Expr, Expr.areWritable es = true → PrintedArguments es (printArguments es)
  | [], _ => by
    rw [printArguments]
    exact .none
  | [e], h => by
    rw [Expr.areWritable, Bool.and_eq_true] at h
    rw [printArguments]
    exact .last (printed_whole (printedForm_printForm e h.1))
  | e :: e' :: es, h => by
    rw [Expr.areWritable, Bool.and_eq_true] at h
    rw [printArguments]
    exact .more (printed_whole (printedForm_printForm e h.1))
      (printedArguments_printArguments (e' :: es) h.2)

end

mutual

theorem printedStatement_printStatement :
    ∀ s : Stmt, s.isWritable = true → PrintedStatement s (printStatement s)
  | .declare x none constant _, h => by
    rw [Stmt.isWritable, Bool.not_eq_true'] at h
    subst h
    rw [printStatement]
    exact .unset
  | .declare x (some value) constant _, h => by
    rw [Stmt.isWritable] at h
    rw [printStatement]
    exact .set (printed_whole (printedForm_printForm value h))
  | .function x xs body _, h => by
    rw [Stmt.isWritable] at h
    rw [printStatement]
    exact .function (.braces (printedStatements_printStatements body h))
  | .loop count body _, h => by
    rw [Stmt.isWritable, Bool.and_eq_true, decide_eq_true_iff] at h
    rw [printStatement]
    exact .loop (Number.isCount_ofDecimal count h.1)
      (.braces (printedStatements_printStatements body h.2))
  | .whileLoop condition body _, h => by
    rw [Stmt.isWritable, Bool.and_eq_true] at h
    rw [printStatement]
    exact .whileLoop (printed_whole (printedForm_printForm condition h.1))
      (.braces (printedStatements_printStatements body h.2))
  | .expr value, h => by
    rw [Stmt.isWritable] at h
    rw [printStatement]
    exact .expr (printed_whole (printedForm_printForm value h))

/-- A tree that can be written has a text. -/
theorem printedStatements_printStatements :
    ∀ ss : List Stmt, Stmt.areWritable ss = true → PrintedStatements ss (printStatements ss)
  | [], _ => by
    rw [printStatements]
    exact .nil
  | s :: ss, h => by
    rw [Stmt.areWritable, Bool.and_eq_true] at h
    rw [printStatements]
    exact .cons (printedStatement_printStatement s h.1) (printedStatements_printStatements ss h.2)

end

/-! ## Reading printed texts -/

theorem operator?_symbol (op : Operator) : (Token.Kind.symbol op.symbol).operator? = some op := by
  cases op <;> rfl

theorem split_at_kind {ts : List Token} {ks ls : List Token.Kind} {k : Token.Kind}
    (h : ts.map Token.kind = ks ++ k :: ls) :
    ∃ u t v, ts = u ++ t :: v ∧ u.map Token.kind = ks ∧ t.kind = k ∧ v.map Token.kind = ls := by
  obtain ⟨u, v', rfl, hu, hv'⟩ := List.map_eq_append_iff.mp h
  obtain ⟨t, v, rfl, ht, hv⟩ := List.map_eq_cons_iff.mp hv'
  exact ⟨u, t, v, rfl, hu, ht, hv⟩

theorem split_enclosed {ts : List Token} {ks : List Token.Kind} {k k' : Token.Kind}
    (h : ts.map Token.kind = k :: (ks ++ [k'])) :
    ∃ l w r, ts = l :: (w ++ [r]) ∧ l.kind = k ∧ w.map Token.kind = ks ∧ r.kind = k' := by
  obtain ⟨l, v, rfl, hl, hv⟩ := List.map_eq_cons_iff.mp h
  obtain ⟨w, r, v', rfl, hw, hr, hv'⟩ := split_at_kind hv
  obtain rfl := List.map_eq_nil_iff.mp hv'
  exact ⟨l, w, r, rfl, hl, hw, hr⟩

mutual

/-- Tokens with the kinds of a printed expression form this expression. -/
theorem Printed.derives {slot : Slot} {e : Expr} {ks : List Token.Kind} :
    Printed slot e ks → ∀ ts : List Token, ts.map Token.kind = ks →
      ∃ e', Derives slot e' ts ∧ e'.erasePositions = e.erasePositions
  | .form hfits h, ts, hts => by
    obtain ⟨e', he', herase⟩ := h.derives ts hts
    exact ⟨e', derives_of_fits he' hfits, herase⟩
  | .paren h, ts, hts => by
    obtain ⟨l, w, r, rfl, hl, hw, hr⟩ := split_enclosed hts
    obtain ⟨e', he', herase⟩ := h.derives w hw
    exact ⟨e', derives_of_fits (.paren hl he' hr) rfl, herase⟩

theorem PrintedForm.derives {e : Expr} {ks : List Token.Kind} :
    PrintedForm e ks → ∀ ts : List Token, ts.map Token.kind = ks →
      ∃ e', Derives (formSlot e) e' ts ∧ e'.erasePositions = e.erasePositions
  | .assign htarget hvalue, ts, hts => by
    obtain ⟨u, t, v, rfl, hu, ht, hv⟩ := split_at_kind hts
    obtain ⟨target, htarget', etarget⟩ := htarget.derives u hu
    obtain ⟨value, hvalue', evalue⟩ := hvalue.derives v hv
    refine ⟨_, .assign htarget' ht hvalue', ?_⟩
    simp only [Expr.erasePositions, etarget, evalue]
  | .binary hlevel hleft hright, ts, hts => by
    obtain ⟨u, t, v, rfl, hu, ht, hv⟩ := split_at_kind hts
    obtain ⟨left, hleft', eleft⟩ := hleft.derives u hu
    obtain ⟨right, hright', eright⟩ := hright.derives v hv
    have hbinary := hleft'.binary (by rw [ht, operator?_symbol]) hlevel hright'
    rw [← hlevel] at hbinary
    refine ⟨_, hbinary, ?_⟩
    simp only [Expr.erasePositions, eleft, eright]
  | .not h, ts, hts => by
    obtain ⟨t, w, rfl, ht, hw⟩ := List.map_eq_cons_iff.mp hts
    obtain ⟨e', he', herase⟩ := h.derives w hw
    refine ⟨_, .not ht he', ?_⟩
    simp only [Expr.erasePositions, herase]
  | .call hcallee hargs, ts, hts => by
    obtain ⟨u, t, v, rfl, hu, ht, hv⟩ := split_at_kind hts
    obtain ⟨callee, hcallee', ecallee⟩ := hcallee.derives u hu
    obtain ⟨args, hargs', eargs⟩ := hargs.derives v hv
    refine ⟨_, hcallee'.apply ht hargs', ?_⟩
    simp only [Expr.erasePositions, ecallee, eargs]
  | .identifier, ts, hts => by
    obtain ⟨t, rfl, ht⟩ := List.map_eq_singleton_iff.mp hts
    exact ⟨_, .identifier ht, by simp only [Expr.erasePositions]⟩
  | .number, ts, hts => by
    obtain ⟨t, rfl, ht⟩ := List.map_eq_singleton_iff.mp hts
    exact ⟨_, .number ht, by simp only [Expr.erasePositions]⟩

theorem PrintedArguments.derives {es : List Expr} {ks : List Token.Kind} :
    PrintedArguments es ks → ∀ ts : List Token, ts.map Token.kind = ks →
      ∃ es', Arguments es' ts ∧ Expr.eraseAllPositions es' = Expr.eraseAllPositions es
  | .none, ts, hts => by
    obtain ⟨t, rfl, ht⟩ := List.map_eq_singleton_iff.mp hts
    exact ⟨[], .none ht, rfl⟩
  | .last h, ts, hts => by
    obtain ⟨u, r, v, rfl, hu, hr, hv⟩ := split_at_kind hts
    obtain rfl := List.map_eq_nil_iff.mp hv
    obtain ⟨e', he', herase⟩ := h.derives u hu
    refine ⟨[e'], .last he' hr, ?_⟩
    simp only [Expr.eraseAllPositions, herase]
  | .more h hargs, ts, hts => by
    obtain ⟨u, c, v, rfl, hu, hc, hv⟩ := split_at_kind hts
    obtain ⟨e', he', herase⟩ := h.derives u hu
    obtain ⟨es', hes', eargs⟩ := hargs.derives v hv
    cases es' with
    | nil =>
      simp only [Expr.eraseAllPositions] at eargs
      cases eargs
    | cons e₁ es₁ =>
      refine ⟨e' :: e₁ :: es₁, .more he' hc hes', ?_⟩
      rw [Expr.eraseAllPositions, herase, eargs]
      rfl

end

theorem params_of_kinds {xs : List String} {ts : List Token}
    (h : ts.map Token.kind = paramKinds xs) : Params xs ts := by
  induction xs using paramKinds.induct generalizing ts with
  | case1 =>
    obtain ⟨r, rfl, hr⟩ := List.map_eq_singleton_iff.mp h
    exact .none hr
  | case2 x =>
    obtain ⟨t, v, rfl, ht, hv⟩ := List.map_eq_cons_iff.mp h
    obtain ⟨r, rfl, hr⟩ := List.map_eq_singleton_iff.mp hv
    exact .last (.name ht) hr
  | case3 x y xs ih =>
    obtain ⟨t, v', rfl, ht, hv'⟩ := List.map_eq_cons_iff.mp h
    obtain ⟨c, v, rfl, hc, hv⟩ := List.map_eq_cons_iff.mp hv'
    exact .more (.name ht) hc (ih hv)

/-- Tokens that end with a semicolon are apart from all others. -/
theorem apart_of_semicolon {t : Token} (ht : t.kind = .symbol .semicolon) (u v : List Token) :
    Apart (u ++ [t]) v :=
  fun _ _ _ => ⟨t, mem_getLast?_append rfl u, Or.inl ht⟩

mutual

/-- Tokens with the kinds of a printed statement, and a semicolon, form this statement. -/
theorem PrintedStatement.derives {s : Stmt} {ks : List Token.Kind} :
    PrintedStatement s ks → ∀ (ts : List Token) (t : Token), ts.map Token.kind = ks →
      t.kind = .symbol .semicolon →
      ∃ s', Statement true s' (ts ++ [t]) ∧ s'.erasePositions = s.erasePositions
  | .unset, ts, t, hts, ht => by
    obtain ⟨k, v, rfl, hk, hv⟩ := List.map_eq_cons_iff.mp hts
    obtain ⟨n, rfl, hn⟩ := List.map_eq_singleton_iff.mp hv
    exact ⟨_, .unset hk hn ht, by simp only [Stmt.erasePositions]⟩
  | .set he, ts, t, hts, ht => by
    obtain ⟨k, v, rfl, hk, hv⟩ := List.map_eq_cons_iff.mp hts
    obtain ⟨n, v, rfl, hn, hv⟩ := List.map_eq_cons_iff.mp hv
    obtain ⟨a, w, rfl, ha, hw⟩ := List.map_eq_cons_iff.mp hv
    obtain ⟨e', he', herase⟩ := he.derives w hw
    refine ⟨_, .set hk hn ha he' ht, ?_⟩
    simp only [Stmt.erasePositions, Option.map_some, herase]
  | .function hbody, ts, t, hts, ht => by
    obtain ⟨k, v, rfl, hk, hv⟩ := List.map_eq_cons_iff.mp hts
    obtain ⟨n, v, rfl, hn, hv⟩ := List.map_eq_cons_iff.mp hv
    obtain ⟨l, v, rfl, hl, hv⟩ := List.map_eq_cons_iff.mp hv
    obtain ⟨u, v, rfl, hu, hv⟩ := List.map_eq_append_iff.mp hv
    obtain ⟨body', hbody', herase⟩ := hbody.derives v hv
    refine ⟨_, .ended (.function hk hn hl (params_of_kinds hu) hbody') ht, ?_⟩
    simp only [Stmt.erasePositions, herase]
  | .loop hcount hbody, ts, t, hts, ht => by
    obtain ⟨k, v, rfl, hk, hv⟩ := List.map_eq_cons_iff.mp hts
    obtain ⟨n, v, rfl, hn, hv⟩ := List.map_eq_cons_iff.mp hv
    obtain ⟨body', hbody', herase⟩ := hbody.derives v hv
    refine ⟨_, .ended (.loop hk hn hcount hbody') ht, ?_⟩
    simp only [Stmt.erasePositions, herase]
  | .whileLoop hcondition hbody, ts, t, hts, ht => by
    obtain ⟨k, v, rfl, hk, hv⟩ := List.map_eq_cons_iff.mp hts
    obtain ⟨u, v, rfl, hu, hv⟩ := List.map_eq_append_iff.mp hv
    obtain ⟨condition', hcondition', econdition⟩ := hcondition.derives u hu
    obtain ⟨body', hbody', ebody⟩ := hbody.derives v hv
    refine ⟨_, .ended (.whileLoop hk hcondition' hbody') ht, ?_⟩
    simp only [Stmt.erasePositions, econdition, ebody]
  | .expr he, ts, t, hts, ht => by
    obtain ⟨e', he', herase⟩ := he.derives ts hts
    refine ⟨_, .ended (.expr he') ht, ?_⟩
    simp only [Stmt.erasePositions, herase]

theorem PrintedBlock.derives {body : List Stmt} {ks : List Token.Kind} :
    PrintedBlock body ks → ∀ ts : List Token, ts.map Token.kind = ks →
      ∃ body', Block true body' ts ∧ Stmt.eraseAllPositions body' = Stmt.eraseAllPositions body
  | .braces h, ts, hts => by
    obtain ⟨l, w, r, rfl, hl, hw, hr⟩ := split_enclosed hts
    obtain ⟨body', hbody', herase⟩ := h.derives w hw
    exact ⟨body', .braces hl hbody' hr, herase⟩

/-- Tokens with the kinds of printed statements form these statements. -/
theorem PrintedStatements.derives {ss : List Stmt} {ks : List Token.Kind} :
    PrintedStatements ss ks → ∀ ts : List Token, ts.map Token.kind = ks →
      ∃ ss', Statements true ss' ts ∧ Stmt.eraseAllPositions ss' = Stmt.eraseAllPositions ss
  | .nil, ts, hts => by
    obtain rfl := List.map_eq_nil_iff.mp hts
    exact ⟨[], .nil, rfl⟩
  | .cons hs hss, ts, hts => by
    obtain ⟨u, t, v, rfl, hu, ht, hv⟩ := split_at_kind hts
    obtain ⟨s', hs', es⟩ := hs.derives u t hu ht
    obtain ⟨ss', hss', ess⟩ := hss.derives v hv
    refine ⟨s' :: ss', ?_, ?_⟩
    · -- the semicolon keeps the statement apart from those after it
      rw [List.append_cons]
      exact .cons hs' hss' fun _ => apart_of_semicolon ht u v
    · simp only [Stmt.eraseAllPositions, es, ess]

end

/-- A program that can be written has a text, and parsing any text of it, with any number of
parentheses that are not needed, gives the program up to positions. -/
theorem ofTokens_printed (p : Program) (hp : p.isWritable = true) :
    PrintedStatements p (printStatements p) ∧
      ∀ ts : List Token, PrintedStatements p (ts.map Token.kind) →
        ∀ eof : Token, eof.kind = .endOfFile →
          ∃ p', Program.ofTokens (ts ++ [eof]) = .ok p' ∧
            p'.erasePositions = p.erasePositions := by
  refine ⟨printedStatements_printStatements p hp, ?_⟩
  intro ts hprinted eof heof
  obtain ⟨p', hp', herase⟩ := hprinted.derives ts rfl
  exact ⟨p', hp'.ofTokens heof, herase⟩

/-- The difference of a name and a remainder, which needs parentheses. -/
def differenceOfRemainder : Program :=
  [.expr (.binary .sub (.identifier "x" .nowhere)
    (.binary .rem (.identifier "y" .nowhere) (.identifier "z" .nowhere) .nowhere) .nowhere)]

/-- The remainder may stand in two pairs of parentheses, and a name in one. -/
theorem differenceOfRemainder_parsed :
    differenceOfRemainder.isWritable = true ∧
      ∃ ks, PrintedStatements differenceOfRemainder ks ∧
        ks = [.identifier "x", .symbol .minus, .symbol .leftParen, .symbol .leftParen,
          .identifier "y", .symbol .percent, .symbol .leftParen, .identifier "z",
          .symbol .rightParen, .symbol .rightParen, .symbol .rightParen, .symbol .semicolon] ∧
        ∀ ts : List Token, ts.map Token.kind = ks → ∀ eof : Token, eof.kind = .endOfFile →
          ∃ p', Program.ofTokens (ts ++ [eof]) = .ok p' ∧
            p'.erasePositions = differenceOfRemainder.erasePositions := by
  have hname (slot : Slot) (x : String) : Printed slot (.identifier x .nowhere) [.identifier x] :=
    .form rfl .identifier
  have hrem : Printed .assignment
      (.binary .rem (.identifier "y" .nowhere) (.identifier "z" .nowhere) .nowhere) _ :=
    printed_whole (.binary rfl (hname _ "y") (.paren (hname _ "z")))
  have hprinted : PrintedStatements differenceOfRemainder _ :=
    .cons (.expr (printed_whole (.binary rfl (hname _ "x") (.paren (.paren hrem))))) .nil
  refine ⟨rfl, _, hprinted, rfl, ?_⟩
  rintro ts hts eof heof
  exact (ofTokens_printed differenceOfRemainder rfl).2 ts (hts ▸ hprinted) eof heof

end Printing

end Scriptlet
