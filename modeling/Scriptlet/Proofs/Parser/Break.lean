import Scriptlet.Proofs.Parser.Recognition

/-! # Where phrases break off

The counterpart of the grammar for texts that are not programs. Each relation takes the tokens up to
and with the first one that is out of place, and the error that this one causes. A phrase breaks off
in one of its parts, after whole parts, or between two of them; a whole part before the break ends
where the parser ends it, which the token after it decides.

The relations cover the tokens that are wrong. Running out of tokens is no break.

All tokens before the break can be continued to a phrase (`Breaks.viable`), with the exception of
parameter lists: they are read as expressions, and that they must be names comes out only at their
closing parenthesis. `InsideParameters` says where this matters, and `ParametersContinue` what must
hold there so that the tokens can be continued nevertheless.
-/

namespace Scriptlet.Grammar

/-! ## Breaks -/

/-- The tokens that a primary starts with. -/
def OpensPrimary : Token.Kind → Prop
  | .identifier _ | .number _ | .symbol .leftParen => True
  | _ => False

/-- The first token is not the given symbol. -/
def NotFirst (s : Symbol) (w : List Token) : Prop :=
  ∀ k ∈ w.head?, k.kind ≠ .symbol s

mutual

/-- Expressions of a slot that break off. -/
inductive Breaks : Slot → List Token → SyntaxError → Prop
  | operand {w : List Token} {e : SyntaxError} : Breaks .logical w e → Breaks .assignment w e
  | value {x : Expr} {a : Token} {u v : List Token} {e : SyntaxError} :
      Derives .logical x u → a.kind = .symbol .assign → Breaks .assignment v e →
      Breaks .assignment (u ++ a :: v) e
  | left {n : Nat} {w : List Token} {e : SyntaxError} :
      Breaks (.level n) w e → Breaks (.level (n + 1)) w e
  | right {n : Nat} {x : Expr} {op : Operator} {o : Token} {u v : List Token} {e : SyntaxError} :
      Derives (.level (n + 1)) x u → o.kind.operator? = some op → op.tier.level = n + 1 →
      Breaks (.level n) v e → Breaks (.level (n + 1)) (u ++ o :: v) e
  | not {t : Token} {w : List Token} {e : SyntaxError} :
      t.kind = .symbol .not → Breaks (.level 0) w e → Breaks (.level 0) (t :: w) e
  | positive {w : List Token} {e : SyntaxError} :
      NotFirst .not w → Breaks .call w e → Breaks (.level 0) w e
  | callee {w : List Token} {e : SyntaxError} : Breaks .primary w e → Breaks .call w e
  | arguments {x : Expr} {l : Token} {u v : List Token} {e : SyntaxError} :
      Derives .call x u → l.kind = .symbol .leftParen → NotFirst .rightParen v →
      BreaksItems v e → Breaks .call (u ++ l :: v) e
  | start {t : Token} : ¬ OpensPrimary t.kind → Breaks .primary [t] (.unexpected .expression t)
  | inside {l : Token} {w : List Token} {e : SyntaxError} :
      l.kind = .symbol .leftParen → Breaks .assignment w e → Breaks .primary (l :: w) e
  | unclosed {x : Expr} {l t : Token} {w : List Token} :
      l.kind = .symbol .leftParen → Derives .assignment x w → Stops .assignment [t] →
      t.kind ≠ .symbol .rightParen →
      Breaks .primary (l :: (w ++ [t])) (.unexpected (.symbol .rightParen) t)

/-- Expressions separated by commas that break off before a closing parenthesis. -/
inductive BreaksItems : List Token → SyntaxError → Prop
  | item {w : List Token} {e : SyntaxError} : Breaks .assignment w e → BreaksItems w e
  | separator {x : Expr} {t : Token} {w : List Token} :
      Derives .assignment x w → Stops .assignment [t] → t.kind ≠ .symbol .comma →
      t.kind ≠ .symbol .rightParen → BreaksItems (w ++ [t]) (.unexpected .commaOrClose t)
  | next {x : Expr} {c : Token} {u v : List Token} {e : SyntaxError} :
      Derives .assignment x u → c.kind = .symbol .comma → BreaksItems v e →
      BreaksItems (u ++ c :: v) e

end

/-- Declarations that break off, from their name on, with the position of their keyword. -/
inductive BreaksDeclaration (constant : Bool) (pos : Position) : List Token → SyntaxError → Prop
  | name {t : Token} :
      (∀ x, t.kind ≠ .identifier x) →
      BreaksDeclaration constant pos [t] ⟨.invalidDeclaration t.kind, t.pos⟩
  | unset {x : String} {n t : Token} :
      constant = true → n.kind = .identifier x → t.kind = .symbol .semicolon →
      BreaksDeclaration constant pos [n, t] ⟨.missingConstantValue x, pos⟩
  | sign {x : String} {n t : Token} :
      n.kind = .identifier x → t.kind ≠ .symbol .semicolon → t.kind ≠ .symbol .assign →
      BreaksDeclaration constant pos [n, t] (.unexpected (.symbol .assign) t)
  | value {x : String} {n a : Token} {w : List Token} {e : SyntaxError} :
      n.kind = .identifier x → a.kind = .symbol .assign → Breaks .assignment w e →
      BreaksDeclaration constant pos (n :: a :: w) e
  | semicolon {x : String} {n a t : Token} {value : Expr} {w : List Token} :
      n.kind = .identifier x → a.kind = .symbol .assign → Derives .assignment value w →
      Stops .assignment [t] → t.kind ≠ .symbol .semicolon →
      BreaksDeclaration constant pos (n :: a :: (w ++ [t])) ⟨.missingSemicolon t.kind, t.pos⟩

mutual

/-- Statements that break off. -/
inductive BreaksStatement : List Token → SyntaxError → Prop
  | declaration {constant : Bool} {k : Token} {w : List Token} {e : SyntaxError} :
      k.kind = .keyword (declarationKeyword constant) → BreaksDeclaration constant k.pos w e →
      BreaksStatement (k :: w) e
  | function {k : Token} {w : List Token} {e : SyntaxError} :
      k.kind = .keyword .fnKw → BreaksFunction w e → BreaksStatement (k :: w) e
  | loop {k : Token} {w : List Token} {e : SyntaxError} :
      k.kind = .keyword .forKw → BreaksLoop w e → BreaksStatement (k :: w) e
  | whileLoop {k : Token} {w : List Token} {e : SyntaxError} :
      k.kind = .keyword .whileKw → BreaksWhile w e → BreaksStatement (k :: w) e
  | expr {w : List Token} {e : SyntaxError} :
      (∀ k ∈ w.head?, ∀ word, k.kind ≠ .keyword word) → Breaks .assignment w e →
      BreaksStatement w e

/-- Function declarations that break off, from their name on. That a parameter is no name counts as
a break at the closing parenthesis. -/
inductive BreaksFunction : List Token → SyntaxError → Prop
  | name {t : Token} :
      (∀ x, t.kind ≠ .identifier x) → BreaksFunction [t] ⟨.missingFunctionName t.kind, t.pos⟩
  | opening {x : String} {n t : Token} :
      n.kind = .identifier x → t.kind ≠ .symbol .leftParen →
      BreaksFunction [n, t] ⟨.malformedParameters t.kind, t.pos⟩
  | parameters {x : String} {n l : Token} {w : List Token} {e : SyntaxError} :
      n.kind = .identifier x → l.kind = .symbol .leftParen → NotFirst .rightParen w →
      BreaksItems w e → BreaksFunction (n :: l :: w) e
  | closing {x : String} {n l : Token} {es : List Expr} {w : List Token} {e : SyntaxError} :
      n.kind = .identifier x → l.kind = .symbol .leftParen → Arguments es w →
      Parser.paramNames es = .error e → BreaksFunction (n :: l :: w) e
  | body {x : String} {xs : List String} {n l : Token} {u v : List Token} {e : SyntaxError} :
      n.kind = .identifier x → l.kind = .symbol .leftParen → Params xs u → BreaksBlock v e →
      BreaksFunction (n :: l :: (u ++ v)) e

/-- Loops with a count that break off, from their count on. -/
inductive BreaksLoop : List Token → SyntaxError → Prop
  | count {t : Token} :
      (∀ x, t.kind ≠ .number x) → BreaksLoop [t] (.unexpected .iterationCount t)
  | invalid {x : Float} {t : Token} :
      t.kind = .number x → (∀ count, ¬ Number.IsCount x count) →
      BreaksLoop [t] ⟨.invalidCount x, t.pos⟩
  | body {x : Float} {count : Nat} {n : Token} {w : List Token} {e : SyntaxError} :
      n.kind = .number x → Number.IsCount x count → BreaksBlock w e → BreaksLoop (n :: w) e

/-- Loops with a condition that break off, from their condition on. -/
inductive BreaksWhile : List Token → SyntaxError → Prop
  | condition {w : List Token} {e : SyntaxError} : Breaks .assignment w e → BreaksWhile w e
  | body {x : Expr} {u v : List Token} {e : SyntaxError} :
      Derives .assignment x u → Stops .assignment v → BreaksBlock v e → BreaksWhile (u ++ v) e

/-- Blocks that break off. -/
inductive BreaksBlock : List Token → SyntaxError → Prop
  | opening {t : Token} :
      t.kind ≠ .symbol .leftBrace → BreaksBlock [t] (.unexpected (.symbol .leftBrace) t)
  | inside {l : Token} {w : List Token} {e : SyntaxError} :
      l.kind = .symbol .leftBrace → BreaksStatements (Parser.isSymbol .rightBrace) w e →
      BreaksBlock (l :: w) e
  | unclosed {l t : Token} {ss : List Stmt} {w : List Token} :
      l.kind = .symbol .leftBrace → Statements true ss w → t.kind = .endOfFile →
      BreaksBlock (l :: (w ++ [t])) (.unexpected (.symbol .rightBrace) t)

/-- Statements up to a token on which `stop` holds that break off before it. -/
inductive BreaksStatements : (Token → Bool) → List Token → SyntaxError → Prop
  | first {stop : Token → Bool} {w : List Token} {e : SyntaxError} :
      Parser.stopsBefore stop w = false → BreaksStatement w e → BreaksStatements stop w e
  | later {stop : Token → Bool} {s : Stmt} {u v : List Token} {e : SyntaxError} :
      Statement true s u → Ends u v → BreaksStatements stop v e → BreaksStatements stop (u ++ v) e

end

/-! ## What is before a break can be continued -/

/-- All tokens but the last can be continued to a list on which `C` holds. -/
def Viable (C : List Token → Prop) (w : List Token) : Prop :=
  ∃ p t v, w = p ++ [t] ∧ C (p ++ v)

section Viable

variable {C D : List Token → Prop} {u v w : List Token} {t : Token}

/-- What can be continued without its last token is viable, whatever that token is. -/
theorem viable_concat (h : C (w ++ v)) : Viable C (w ++ [t]) :=
  ⟨w, t, v, rfl, h⟩

theorem viable_singleton (h : C v) : Viable C [t] :=
  viable_concat (w := []) h

theorem Viable.ne_nil (h : Viable C w) : w ≠ [] := by
  obtain ⟨p, t, v, rfl, -⟩ := h
  simp

/-- Tokens stay viable inside a phrase, which has tokens before and after them. -/
theorem Viable.inside (h : Viable C w) (u s : List Token)
    (hstep : ∀ z, C z → D (u ++ (z ++ s))) : Viable D (u ++ w) := by
  obtain ⟨p, t, v, rfl, hz⟩ := h
  have hwhole : D (u ++ p ++ (v ++ s)) := by simpa using hstep _ hz
  rw [← List.append_assoc]
  exact viable_concat hwhole

/-- Tokens stay viable at the end of a phrase. -/
theorem Viable.after (h : Viable C w) (u : List Token) (hstep : ∀ z, C z → D (u ++ z)) :
    Viable D (u ++ w) :=
  h.inside u [] (by simpa using hstep)

/-- A phrase that can be continued to one kind can be continued to a wider kind. -/
theorem Viable.imp (h : Viable C w) (hstep : ∀ z, C z → D z) : Viable D w :=
  h.after [] hstep

theorem Viable.insideCons (h : Viable C w) (u : List Token) (a : Token) (s : List Token)
    (hstep : ∀ z, C z → D (u ++ a :: (z ++ s))) : Viable D (u ++ a :: w) := by
  rw [List.append_cons]
  exact h.inside (u ++ [a]) s (by simpa using hstep)

theorem Viable.afterCons (h : Viable C w) (u : List Token) (a : Token)
    (hstep : ∀ z, C z → D (u ++ a :: z)) : Viable D (u ++ a :: w) :=
  h.insideCons u a [] (by simpa using hstep)

end Viable

/-- A token to continue a text with. -/
def filler (kind : Token.Kind) : Token :=
  ⟨kind, .nowhere, ⟨0, 0⟩⟩

/-- Lists that form an expression of a slot. -/
def IsPhrase (slot : Slot) (w : List Token) : Prop :=
  ∃ x, Derives slot x w

/-- Lists that form arguments with any closing parenthesis after them. -/
def IsItems (w : List Token) : Prop :=
  ∀ r : Token, r.kind = .symbol .rightParen → ∃ es, es ≠ [] ∧ Arguments es (w ++ [r])

/-- A name can stand in every slot. -/
theorem isPhrase_name (slot : Slot) : IsPhrase slot [filler (.identifier "x")] := by
  have hname : Derives .primary (.identifier "x" .nowhere) [filler (.identifier "x")] :=
    Derives.identifier (t := filler (.identifier "x")) rfl
  cases slot with
  | assignment => exact ⟨_, hname.primaryToAssignment⟩
  | level n => exact ⟨_, hname.toCall.callToLevel⟩
  | call => exact ⟨_, hname.toCall⟩
  | primary => exact ⟨_, hname⟩

theorem IsPhrase.isItems {w : List Token} (h : IsPhrase .assignment w) : IsItems w := by
  obtain ⟨x, hx⟩ := h
  exact fun r hr => ⟨[x], by simp, .last hx hr⟩

/-- An item and a comma may stand before items. -/
theorem IsItems.cons {x : Expr} {c : Token} {u w : List Token} (hx : Derives .assignment x u)
    (hc : c.kind = .symbol .comma) (h : IsItems w) : IsItems (u ++ c :: w) := by
  intro r hr
  obtain ⟨es, hne, hes⟩ := h r hr
  obtain ⟨e, es, rfl⟩ := List.exists_cons_of_ne_nil hne
  refine ⟨x :: e :: es, by simp, ?_⟩
  rw [List.append_assoc]
  exact .more hx hc hes

mutual

/-- What is before the break of an expression can be continued to an expression. -/
theorem Breaks.viable {slot : Slot} {w : List Token} {e : SyntaxError} :
    Breaks slot w e → Viable (IsPhrase slot) w
  | .operand h => h.viable.imp fun _ ⟨x, hx⟩ => ⟨x, .operand hx⟩
  | .value hu ha h => h.viable.afterCons _ _ fun _ ⟨_, hx⟩ => ⟨_, .assign hu ha hx⟩
  | .left h => h.viable.imp fun _ ⟨x, hx⟩ => ⟨x, hx.toLevel (Nat.le_succ _)⟩
  | .right hu hop hlevel h =>
    h.viable.afterCons _ _ fun _ ⟨_, hx⟩ => ⟨_, hu.binary hop hlevel hx⟩
  | .not (t := t) ht h => h.viable.after [t] fun _ ⟨_, hx⟩ => ⟨_, .not ht hx⟩
  | .positive _ h => h.viable.imp fun _ ⟨x, hx⟩ => ⟨x, .positive hx⟩
  | .callee h => h.viable.imp fun _ ⟨x, hx⟩ => ⟨x, hx.toCall⟩
  | .arguments hu hl _ h => by
    refine h.viable.insideCons _ _ [filler (.symbol .rightParen)] fun z hz => ?_
    obtain ⟨es, -, hes⟩ := hz (filler (.symbol .rightParen)) rfl
    exact ⟨_, hu.apply hl hes⟩
  | .start _ => viable_singleton (isPhrase_name .primary)
  | .inside (l := l) hl h =>
    h.viable.inside [l] [filler (.symbol .rightParen)] fun _ ⟨x, hx⟩ => ⟨x, .paren hl hx rfl⟩
  | .unclosed (l := l) (w := w) hl hw _ _ =>
    viable_concat (w := l :: w) ⟨_, .paren hl hw (r := filler (.symbol .rightParen)) rfl⟩

/-- What is before the break of a list of items can be continued to one. -/
theorem BreaksItems.viable {w : List Token} {e : SyntaxError} :
    BreaksItems w e → Viable IsItems w
  | .item h => h.viable.imp fun _ => IsPhrase.isItems
  | .separator hw _ _ _ => by
    refine viable_concat (v := []) ?_
    rw [List.append_nil]
    exact IsPhrase.isItems ⟨_, hw⟩
  | .next hu hc h => h.viable.afterCons _ _ fun _ hz => hz.cons hu hc

end

theorem Breaks.ne_nil {slot : Slot} {w : List Token} {e : SyntaxError} (h : Breaks slot w e) :
    w ≠ [] :=
  h.viable.ne_nil

theorem BreaksItems.ne_nil {w : List Token} {e : SyntaxError} (h : BreaksItems w e) : w ≠ [] :=
  h.viable.ne_nil

/-! ## Parentheses -/

/-- How many parentheses are open after the tokens if `depth` are open before them, or `none` if one
is closed that was not open. -/
def openParens : Nat → List Token → Option Nat
  | depth, [] => some depth
  | depth, t :: ts =>
    if Parser.isSymbol .leftParen t then openParens (depth + 1) ts
    else if Parser.isSymbol .rightParen t then
      if depth = 0 then none else openParens (depth - 1) ts
    else openParens depth ts

section OpenParens

variable {depth : Nat} {t : Token} {ts u v w : List Token}

theorem openParens_left (ht : t.kind = .symbol .leftParen) :
    openParens depth (t :: ts) = openParens (depth + 1) ts := by
  rw [openParens, if_pos (Parser.isSymbol_iff.mpr ht)]

theorem openParens_right (ht : t.kind = .symbol .rightParen) :
    openParens (depth + 1) (t :: ts) = openParens depth ts := by
  rw [openParens, if_neg (by simp [Parser.isSymbol_iff, ht]), if_pos (Parser.isSymbol_iff.mpr ht),
    if_neg (Nat.succ_ne_zero depth), Nat.add_sub_cancel]

theorem openParens_other (hleft : t.kind ≠ .symbol .leftParen)
    (hright : t.kind ≠ .symbol .rightParen) :
    openParens depth (t :: ts) = openParens depth ts := by
  rw [openParens, if_neg (mt Parser.isSymbol_iff.mp hleft),
    if_neg (mt Parser.isSymbol_iff.mp hright)]

/-- Open parentheses are counted on from one part to the next. -/
theorem openParens_append :
    openParens depth (u ++ v) = (openParens depth u).bind (openParens · v) := by
  induction u generalizing depth with
  | nil => rfl
  | cons t u ih =>
    simp only [List.cons_append, openParens, ih]
    split_ifs <;> rfl

/-- Tokens that close as many parentheses as they open, and each after it was opened. -/
def Neutral (w : List Token) : Prop :=
  ∀ depth, openParens depth w = some depth

theorem Neutral.append (hu : Neutral u) (hv : Neutral v) : Neutral (u ++ v) := by
  intro depth
  rw [openParens_append, hu]
  exact hv depth

theorem Neutral.cons (hleft : t.kind ≠ .symbol .leftParen) (hright : t.kind ≠ .symbol .rightParen)
    (h : Neutral w) : Neutral (t :: w) := by
  intro depth
  rw [openParens_other hleft hright]
  exact h depth

/-- Parentheses around balanced tokens are balanced. -/
theorem Neutral.enclosed {l r : Token} (hl : l.kind = .symbol .leftParen)
    (hr : r.kind = .symbol .rightParen) (h : Neutral w) : Neutral (l :: (w ++ [r])) := by
  intro depth
  rw [openParens_left hl, openParens_append, h]
  exact openParens_right hr

theorem neutral_nil : Neutral [] := fun _ => rfl

end OpenParens

/-- No keyword is an operator. -/
theorem operator_ne_keyword {k : Token.Kind} {op : Operator} (hop : k.operator? = some op)
    (word : Keyword) : k ≠ .keyword word := by
  rintro rfl
  cases hop

/-- No parenthesis is an operator. -/
theorem operator_ne_paren {k : Token.Kind} {op : Operator} (hop : k.operator? = some op) :
    k ≠ .symbol .leftParen ∧ k ≠ .symbol .rightParen := by
  constructor <;> rintro rfl <;> cases hop

mutual

/-- The parentheses in a phrase are balanced, by recursion on its derivation. -/
theorem Derives.neutral {slot : Slot} {x : Expr} {w : List Token} : Derives slot x w → Neutral w
  | .operand h | .positive h => h.neutral
  | .assign htarget ht hvalue =>
    htarget.neutral.append (hvalue.neutral.cons (by simp [ht]) (by simp [ht]))
  | .operators h hchain => h.neutral.append hchain.neutral
  | .not ht h => h.neutral.cons (by simp [ht]) (by simp [ht])
  | .calls h hcalls => h.neutral.append hcalls.neutral
  | .identifier ht | .number ht => neutral_nil.cons (by simp [ht]) (by simp [ht])
  | .paren hl h hr => h.neutral.enclosed hl hr

theorem Chain.neutral {n : Nat} {left x : Expr} {v : List Token} : Chain n left x v → Neutral v
  | .done => neutral_nil
  | .step hop _ hright h =>
    (hright.neutral.append h.neutral).cons (operator_ne_paren hop).1 (operator_ne_paren hop).2

theorem Calls.neutral {callee x : Expr} {v : List Token} : Calls callee x v → Neutral v
  | .done => neutral_nil
  | .step hl hargs h => by
    obtain ⟨z, r, rfl, hr, hz⟩ := hargs.neutral
    exact (hz.enclosed hl hr).append h.neutral

/-- Arguments close no parenthesis that they do not open, up to the one at their end. -/
theorem Arguments.neutral {es : List Expr} {w : List Token} :
    Arguments es w → ∃ z r, w = z ++ [r] ∧ r.kind = .symbol .rightParen ∧ Neutral z
  | .none hr => ⟨[], _, rfl, hr, neutral_nil⟩
  | .last h hr => ⟨_, _, rfl, hr, h.neutral⟩
  | .more h hc hargs => by
    obtain ⟨z, r, rfl, hr, hz⟩ := hargs.neutral
    exact ⟨_, r, (List.append_assoc _ (_ :: z) [r]).symm, hr,
      h.neutral.append (hz.cons (by simp [hc]) (by simp [hc]))⟩

end

mutual

/-- No function is declared inside an expression. -/
theorem Derives.ne_function {slot : Slot} {x : Expr} {w : List Token} :
    Derives slot x w → ∀ t ∈ w, t.kind ≠ .keyword .fnKw
  | .operand h | .positive h => h.ne_function
  | .assign htarget ht hvalue => by
    simpa [or_imp, forall_and, ht] using ⟨htarget.ne_function, hvalue.ne_function⟩
  | .operators h hchain => by
    simpa [or_imp, forall_and] using ⟨h.ne_function, hchain.ne_function⟩
  | .not ht h => by simpa [ht] using h.ne_function
  | .calls h hcalls => by simpa [or_imp, forall_and] using ⟨h.ne_function, hcalls.ne_function⟩
  | .identifier ht | .number ht => by simp [ht]
  | .paren hl h hr => by simpa [or_imp, forall_and, hl, hr] using h.ne_function

theorem Chain.ne_function {n : Nat} {left x : Expr} {v : List Token} :
    Chain n left x v → ∀ t ∈ v, t.kind ≠ .keyword .fnKw
  | .done => by simp
  | .step hop _ hright h => by
    have ho := operator_ne_keyword hop .fnKw
    simpa [or_imp, forall_and, ho] using ⟨hright.ne_function, h.ne_function⟩

theorem Calls.ne_function {callee x : Expr} {v : List Token} :
    Calls callee x v → ∀ t ∈ v, t.kind ≠ .keyword .fnKw
  | .done => by simp
  | .step hl hargs h => by
    simpa [or_imp, forall_and, hl] using ⟨hargs.ne_function, h.ne_function⟩

theorem Arguments.ne_function {es : List Expr} {w : List Token} :
    Arguments es w → ∀ t ∈ w, t.kind ≠ .keyword .fnKw
  | .none hr => by simp [hr]
  | .last h hr => by simpa [or_imp, forall_and, hr] using h.ne_function
  | .more h hc hargs => by
    simpa [or_imp, forall_and, hc] using ⟨h.ne_function, hargs.ne_function⟩

end

/-- The parentheses of the parameters of a function are open after the tokens, so the next token
stands inside them or closes them. Parameters are parsed as expressions and found not to be names
only when all of them are read, so tokens in such a place may be without a continuation
(`continues_iff_parameters`). -/
def InsideParameters (w : List Token) : Prop :=
  ∃ before k n l between, w = before ++ k :: n :: l :: between ∧ k.kind = .keyword .fnKw ∧
    (∃ x, n.kind = .identifier x) ∧ l.kind = .symbol .leftParen ∧ (openParens 0 between).isSome

/-- The parentheses of the parameters of a function are open after the tokens, with the given tokens
in them, and no other function begins among these. -/
def OpenParameters (w between : List Token) : Prop :=
  ∃ before k n l, w = before ++ k :: n :: l :: between ∧ k.kind = .keyword .fnKw ∧
    (∃ x, n.kind = .identifier x) ∧ l.kind = .symbol .leftParen ∧ (openParens 0 between).isSome ∧
    ∀ t ∈ between, t.kind ≠ .keyword .fnKw

/-- The token after an open list of parameters stands inside it or closes it. -/
theorem OpenParameters.insideParameters {w between : List Token} (h : OpenParameters w between) :
    InsideParameters w := by
  obtain ⟨before, k, n, l, rfl, hk, hn, hl, hopen, -⟩ := h
  exact ⟨before, k, n, l, between, rfl, hk, hn, hl, hopen⟩

/-- What stands in an open list of parameters is the start of parameters. -/
def ParametersContinue (w : List Token) : Prop :=
  ∀ between, OpenParameters w between → ∃ xs v, Params xs (between ++ v)

/-- Before the last token, what stands in an open list of parameters is the start of parameters. -/
def BreaksInOrder (w : List Token) : Prop :=
  ∀ p t, w = p ++ [t] → ParametersContinue p

theorem BreaksInOrder.of_append {u w : List Token} (h : BreaksInOrder (u ++ w)) :
    BreaksInOrder w := by
  rintro p t rfl between ⟨before, k, n, l, rfl, hopen⟩
  refine h (u ++ (before ++ k :: n :: l :: between)) t (by simp) between ?_
  exact ⟨u ++ before, k, n, l, by simp, hopen⟩

/-- Before the parenthesis that closes a list of parameters the list is open. -/
theorem Arguments.openParameters {es : List Expr} {k n l : Token} {x : String} {w : List Token}
    (hk : k.kind = .keyword .fnKw) (hn : n.kind = .identifier x) (hl : l.kind = .symbol .leftParen)
    (h : Arguments es w) :
    ∃ z r, w = z ++ [r] ∧ ∀ p, p <+: z → OpenParameters (k :: n :: l :: p) p := by
  obtain ⟨z, r, rfl, -, hz⟩ := h.neutral
  refine ⟨z, r, rfl, ?_⟩
  rintro p ⟨v, rfl⟩
  have hopen : (openParens 0 p).isSome := by
    have hwhole := hz 0
    rw [openParens_append, Option.bind_eq_some_iff] at hwhole
    obtain ⟨depth, hdepth, -⟩ := hwhole
    rw [hdepth]
    rfl
  exact ⟨[], k, n, l, rfl, hk, ⟨x, hn⟩, hl, hopen, fun t ht => h.ne_function t (by simp [ht])⟩

/-- Where items break off, the parenthesis before them is open. -/
theorem BreaksItems.openParameters {k n l : Token} {x : String} {w : List Token} {e : SyntaxError}
    (hk : k.kind = .keyword .fnKw) (hn : n.kind = .identifier x) (hl : l.kind = .symbol .leftParen)
    (h : BreaksItems w e) : ∃ p t, w = p ++ [t] ∧ OpenParameters (k :: n :: l :: p) p := by
  obtain ⟨p, t, v, rfl, hitems⟩ := h.viable
  obtain ⟨es, -, hes⟩ := hitems (filler (.symbol .rightParen)) rfl
  obtain ⟨z, r, heq, hopen⟩ := hes.openParameters hk hn hl
  obtain ⟨rfl, -⟩ := List.append_inj' heq rfl
  exact ⟨p, t, rfl, hopen p (List.prefix_append p v)⟩

/-! ## Statements before a break -/

/-- The only error in a list of parameters is an expression that is no name. -/
theorem paramNames_error_cause {es : List Expr} {e : SyntaxError}
    (h : Parser.paramNames es = .error e) : e.cause = .invalidParameter := by
  induction es with
  | nil => cases h
  | cons x es ih =>
    cases x with
    | identifier x pos =>
      rw [Parser.paramNames] at h
      cases hes : Parser.paramNames es with
      | ok names =>
        rw [hes] at h
        cases h
      | error e' =>
        rw [hes] at h
        cases h
        exact ih hes
    | _ =>
      cases h
      rfl

/-- Lists that form a statement. -/
def IsStatement (w : List Token) : Prop :=
  ∃ s, Statement false s w

/-- Lists that form a block. -/
def IsBlock (w : List Token) : Prop :=
  ∃ body, Block false body w

/-- Lists that form statements. -/
def IsStatements (w : List Token) : Prop :=
  ∃ ss, Statements false ss w

theorem IsStatement.isStatements {w : List Token} (h : IsStatement w) : IsStatements w := by
  obtain ⟨s, hs⟩ := h
  refine ⟨[s], ?_⟩
  rw [← List.append_nil w]
  exact .cons hs .nil nofun

/-- The tokens of an empty block. -/
def fillerBlock : List Token :=
  [filler (.symbol .leftBrace), filler (.symbol .rightBrace)]

theorem isBlock_filler : IsBlock fillerBlock :=
  ⟨[], .braces (l := filler (.symbol .leftBrace)) (w := []) (r := filler (.symbol .rightBrace))
    rfl .nil rfl⟩

theorem isStatement_set {constant : Bool} {x : String} {k n a : Token} {w : List Token}
    (hk : k.kind = .keyword (declarationKeyword constant)) (hn : n.kind = .identifier x)
    (ha : a.kind = .symbol .assign) (hw : IsPhrase .assignment w) :
    IsStatement (k :: n :: a :: (w ++ [filler (.symbol .semicolon)])) := by
  obtain ⟨value, hvalue⟩ := hw
  exact ⟨_, .set hk hn ha hvalue rfl⟩

/-- A function with its name, parameters and body. -/
theorem isStatement_function {x : String} {xs : List String} {k n l : Token} {u v : List Token}
    (hk : k.kind = .keyword .fnKw) (hn : n.kind = .identifier x) (hl : l.kind = .symbol .leftParen)
    (hu : Params xs u) (hv : IsBlock v) : IsStatement (k :: n :: l :: (u ++ v)) := by
  obtain ⟨body, hbody⟩ := hv
  exact ⟨_, .bare (.function hk hn hl hu hbody)⟩

/-- A function declaration can be completed from within its parameters if these can. -/
theorem viable_parameters {x : String} {k n l t : Token} {p : List Token}
    (hk : k.kind = .keyword .fnKw) (hn : n.kind = .identifier x) (hl : l.kind = .symbol .leftParen)
    (hopen : OpenParameters (k :: n :: l :: p) p)
    (horder : BreaksInOrder (k :: n :: l :: (p ++ [t]))) :
    Viable IsStatement (k :: n :: l :: (p ++ [t])) := by
  obtain ⟨xs, v, hparams⟩ := horder (k :: n :: l :: p) t rfl p hopen
  have hstatement := isStatement_function hk hn hl hparams isBlock_filler
  rw [List.append_assoc] at hstatement
  exact viable_concat (w := k :: n :: l :: p) hstatement

theorem isStatement_loop {x : Float} {count : Nat} {k n : Token} {w : List Token}
    (hk : k.kind = .keyword .forKw) (hn : n.kind = .number x) (hcount : Number.IsCount x count)
    (hw : IsBlock w) : IsStatement (k :: n :: w) := by
  obtain ⟨body, hbody⟩ := hw
  exact ⟨_, .bare (.loop hk hn hcount hbody)⟩

theorem isStatement_while {k : Token} {u v : List Token} (hk : k.kind = .keyword .whileKw)
    (hu : IsPhrase .assignment u) (hv : IsBlock v) : IsStatement (k :: (u ++ v)) := by
  obtain ⟨condition, hcondition⟩ := hu
  obtain ⟨body, hbody⟩ := hv
  exact ⟨_, .bare (.whileLoop hk hcondition hbody)⟩

/-- A declaration can be completed from every point before its break. -/
theorem BreaksDeclaration.viable {constant : Bool} {k : Token} {w : List Token} {e : SyntaxError}
    (hk : k.kind = .keyword (declarationKeyword constant))
    (h : BreaksDeclaration constant k.pos w e) : Viable IsStatement (k :: w) := by
  have hname := isPhrase_name .assignment
  cases h with
  | name _ =>
    exact viable_concat (w := [k]) (isStatement_set hk (n := filler (.identifier "x"))
      (a := filler (.symbol .assign)) rfl rfl hname)
  | unset _ hn _ | sign hn _ _ =>
    exact viable_concat (w := [k, _]) (isStatement_set hk hn (a := filler (.symbol .assign)) rfl
      hname)
  | value hn ha h => exact h.viable.inside [k, _, _] _ fun _ => isStatement_set hk hn ha
  | semicolon hn ha hw _ _ =>
    exact viable_concat (w := k :: _ :: _ :: _) (isStatement_set hk hn ha ⟨_, hw⟩)

mutual

/-- What stands before a break inside of a statement can be continued to a statement. -/
theorem BreaksStatement.viable {w : List Token} {e : SyntaxError} :
    BreaksStatement w e → BreaksInOrder w → Viable IsStatement w
  | .declaration hk h, _ => h.viable hk
  | .function hk h, horder => h.viable hk horder
  | .loop hk h, horder => h.viable hk (horder.of_append (u := [_]))
  | .whileLoop hk h, horder => h.viable hk (horder.of_append (u := [_]))
  | .expr _ h, _ => h.viable.imp fun _ ⟨x, hx⟩ => ⟨.expr x, .bare (.expr hx)⟩

/-- Before a break in the parameters, the open list must be one that continues; elsewhere a filler
completes the function. -/
theorem BreaksFunction.viable {k : Token} {w : List Token} {e : SyntaxError} :
    BreaksFunction w e → k.kind = .keyword .fnKw → BreaksInOrder (k :: w) →
      Viable IsStatement (k :: w)
  | .name _, hk, _ =>
    viable_concat (w := [k]) (isStatement_function hk (n := filler (.identifier "x"))
      (l := filler (.symbol .leftParen)) rfl rfl (.none (r := filler (.symbol .rightParen)) rfl)
      isBlock_filler)
  | .opening (n := n) hn _, hk, _ =>
    viable_concat (w := [k, n]) (isStatement_function hk hn (l := filler (.symbol .leftParen)) rfl
      (.none (r := filler (.symbol .rightParen)) rfl) isBlock_filler)
  | .parameters hn hl _ h, hk, horder => by
    obtain ⟨p, t, rfl, hopen⟩ := h.openParameters hk hn hl
    exact viable_parameters hk hn hl hopen horder
  | .closing hn hl hargs _, hk, horder => by
    obtain ⟨p, t, rfl, hopen⟩ := hargs.openParameters hk hn hl
    exact viable_parameters hk hn hl (hopen p List.prefix_rfl) horder
  | .body (n := n) (l := l) (u := u) hn hl hu h, hk, horder =>
    (h.viable (horder.of_append (u := k :: n :: l :: u))).after (k :: n :: l :: u)
      fun _ => isStatement_function hk hn hl hu

theorem BreaksLoop.viable {k : Token} {w : List Token} {e : SyntaxError} :
    BreaksLoop w e → k.kind = .keyword .forKw → BreaksInOrder w → Viable IsStatement (k :: w)
  | .count _, hk, _ | .invalid _ _, hk, _ =>
    viable_concat (w := [k]) (isStatement_loop hk (n := filler (.number (Number.ofDecimal 0 0))) rfl
      (Number.isCount_ofDecimal 0 (Nat.zero_le _)) isBlock_filler)
  | .body (n := n) hn hcount h, hk, horder =>
    (h.viable (horder.of_append (u := [n]))).after [k, n] fun _ =>
      isStatement_loop hk hn hcount

theorem BreaksWhile.viable {k : Token} {w : List Token} {e : SyntaxError} :
    BreaksWhile w e → k.kind = .keyword .whileKw → BreaksInOrder w → Viable IsStatement (k :: w)
  | .condition h, hk, _ =>
    h.viable.inside [k] fillerBlock fun z hz => isStatement_while (u := z) hk hz isBlock_filler
  | .body (u := u) hu _ h, hk, horder =>
    (h.viable (horder.of_append (u := u))).after (k :: u) fun _ => isStatement_while hk ⟨_, hu⟩

/-- A block is completed by the statements inside and a closing brace. -/
theorem BreaksBlock.viable {w : List Token} {e : SyntaxError} :
    BreaksBlock w e → BreaksInOrder w → Viable IsBlock w
  | .opening _, _ => viable_singleton isBlock_filler
  | .inside (l := l) hl h, horder =>
    (h.viable (horder.of_append (u := [l]))).inside [l] [filler (.symbol .rightBrace)]
      fun _ ⟨body, hbody⟩ => ⟨body, .braces hl hbody rfl⟩
  | .unclosed (l := l) (w := w) hl hw _, _ =>
    viable_concat (w := l :: w) ⟨_, .braces hl hw.loose (r := filler (.symbol .rightBrace)) rfl⟩

/-- What is before the break of statements can be continued to statements, if this holds of an open
list of parameters. -/
theorem BreaksStatements.viable {stop : Token → Bool} {w : List Token} {e : SyntaxError} :
    BreaksStatements stop w e → BreaksInOrder w → Viable IsStatements w
  | .first _ h, horder =>
    (h.viable horder).imp fun _ => IsStatement.isStatements
  | .later (u := u) hu _ h, horder =>
    (h.viable (horder.of_append (u := u))).after u fun _ ⟨_, hss⟩ =>
      ⟨_, .cons hu.loose hss nofun⟩

end

end Scriptlet.Grammar
