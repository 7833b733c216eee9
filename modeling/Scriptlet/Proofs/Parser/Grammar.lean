import Scriptlet.Proofs.Number.Value
import Scriptlet.Syntax.Parser.Statement

/-! # The grammar of programs

The written grammar, as relations between trees and the token lists they are written with. A tree
that a relation gives to a token list has the positions that its tokens have.

An expression stands in a *slot*, which says how loosely it may bind there. `Slot.ContinuedBy` lists
the tokens that would be read into an expression of the slot if they came right after it, and
`Stops` says that none of them does.

The grammar is ambiguous where an expression without a semicolon is followed by an opening
parenthesis: the two can be one call or two statements. The relations on statements take a flag;
if it is set, the second reading is left out.
-/

namespace Scriptlet.Grammar

/-- The slots of expressions, from the loosest to the tightest. Levels are those of the operator
tiers, and level zero is negation. -/
inductive Slot where
  | assignment
  | level (n : Nat)
  | call
  | primary

/-- The slot of an operand of the loosest operators. -/
abbrev Slot.logical : Slot := .level Tier.logical.level

mutual

/-- The tokens that form an expression in a slot. -/
inductive Derives : Slot → Expr → List Token → Prop
  | operand {e : Expr} {w : List Token} :
      Derives .logical e w → Derives .assignment e w
  | assign {target value : Expr} {u v : List Token} {t : Token} :
      Derives .logical target u → t.kind = .symbol .assign → Derives .assignment value v →
      Derives .assignment (.assign target value target.pos) (u ++ t :: v)
  | operators {n : Nat} {left e : Expr} {u v : List Token} :
      Derives (.level n) left u → Chain n left e v → Derives (.level (n + 1)) e (u ++ v)
  | not {e : Expr} {t : Token} {w : List Token} :
      t.kind = .symbol .not → Derives (.level 0) e w → Derives (.level 0) (.not e t.pos) (t :: w)
  | positive {e : Expr} {w : List Token} :
      Derives .call e w → Derives (.level 0) e w
  | calls {callee e : Expr} {u v : List Token} :
      Derives .primary callee u → Calls callee e v → Derives .call e (u ++ v)
  | identifier {t : Token} {x : String} :
      t.kind = .identifier x → Derives .primary (.identifier x t.pos) [t]
  | number {t : Token} {x : Float} :
      t.kind = .number x → Derives .primary (.number x t.pos) [t]
  | paren {e : Expr} {l r : Token} {w : List Token} :
      l.kind = .symbol .leftParen → Derives .assignment e w → r.kind = .symbol .rightParen →
      Derives .primary e (l :: (w ++ [r]))

/-- Operators of level `n + 1` with their right operands, which turn the expression before them into
the given one. -/
inductive Chain : Nat → Expr → Expr → List Token → Prop
  | done {n : Nat} {e : Expr} : Chain n e e []
  | step {n : Nat} {op : Operator} {left right e : Expr} {t : Token} {u v : List Token} :
      t.kind.operator? = some op → op.tier.level = n + 1 → Derives (.level n) right u →
      Chain n (.binary op left right left.pos) e v → Chain n left e (t :: (u ++ v))

/-- Argument lists, which turn the expression before them into the given one. -/
inductive Calls : Expr → Expr → List Token → Prop
  | done {e : Expr} : Calls e e []
  | step {callee e : Expr} {args : List Expr} {t : Token} {u v : List Token} :
      t.kind = .symbol .leftParen → Arguments args u → Calls (.call callee args callee.pos) e v →
      Calls callee e (t :: (u ++ v))

/-- Expressions separated by commas, with the closing parenthesis. -/
inductive Arguments : List Expr → List Token → Prop
  | none {r : Token} : r.kind = .symbol .rightParen → Arguments [] [r]
  | last {e : Expr} {u : List Token} {r : Token} :
      Derives .assignment e u → r.kind = .symbol .rightParen → Arguments [e] (u ++ [r])
  | more {e e' : Expr} {es : List Expr} {u v : List Token} {c : Token} :
      Derives .assignment e u → c.kind = .symbol .comma → Arguments (e' :: es) v →
      Arguments (e :: e' :: es) (u ++ c :: v)

end

/-- Induction along the operators of a chain, whose operands stay as they are. -/
@[elab_as_elim]
theorem Chain.induction {n : Nat}
    {motive : (left e : Expr) → (v : List Token) → Chain n left e v → Prop}
    (done : ∀ e, motive e e [] .done)
    (step : ∀ {op left right e t u v} (hop : t.kind.operator? = some op)
      (hlevel : op.tier.level = n + 1) (hright : Derives (.level n) right u)
      (h : Chain n (.binary op left right left.pos) e v),
      motive (.binary op left right left.pos) e v h →
        motive left e (t :: (u ++ v)) (.step hop hlevel hright h))
    {left e : Expr} {v : List Token} : (h : Chain n left e v) → motive left e v h
  | .done => done _
  | .step hop hlevel hright h => step hop hlevel hright h (Chain.induction done step h)

/-- Induction along the argument lists after an expression. -/
@[elab_as_elim]
theorem Calls.induction {motive : (callee e : Expr) → (v : List Token) → Calls callee e v → Prop}
    (done : ∀ e, motive e e [] .done)
    (step : ∀ {callee e args t u v} (hl : t.kind = .symbol .leftParen) (hargs : Arguments args u)
      (h : Calls (.call callee args callee.pos) e v),
      motive (.call callee args callee.pos) e v h →
        motive callee e (t :: (u ++ v)) (.step hl hargs h))
    {callee e : Expr} {v : List Token} : (h : Calls callee e v) → motive callee e v h
  | .done => done _
  | .step hl hargs h => step hl hargs h (Calls.induction done step h)

/-- A parameter: a name, possibly inside parentheses. -/
inductive Param : String → List Token → Prop
  | name {t : Token} {x : String} : t.kind = .identifier x → Param x [t]
  | paren {x : String} {l r : Token} {w : List Token} :
      l.kind = .symbol .leftParen → Param x w → r.kind = .symbol .rightParen →
      Param x (l :: (w ++ [r]))

/-- Parameters separated by commas, with the closing parenthesis. -/
inductive Params : List String → List Token → Prop
  | none {r : Token} : r.kind = .symbol .rightParen → Params [] [r]
  | last {x : String} {u : List Token} {r : Token} :
      Param x u → r.kind = .symbol .rightParen → Params [x] (u ++ [r])
  | more {x y : String} {xs : List String} {u v : List Token} {c : Token} :
      Param x u → c.kind = .symbol .comma → Params (y :: xs) v → Params (x :: y :: xs) (u ++ c :: v)

/-- The keyword of a declaration. -/
def declarationKeyword (constant : Bool) : Keyword :=
  if constant then .constKw else .letKw

/-- Tokens that cannot be read on into the tokens after them: these do not start with an opening
parenthesis, or a semicolon or a closing brace stands between. -/
def Apart (u v : List Token) : Prop :=
  ∀ t ∈ v.head?, t.kind = .symbol .leftParen →
    ∃ l ∈ u.getLast?, l.kind = .symbol .semicolon ∨ l.kind = .symbol .rightBrace

mutual

/-- The tokens that form a statement. Declarations of variables and constants need their semicolon,
all other statements may have one. -/
inductive Statement (strict : Bool) : Stmt → List Token → Prop
  | unset {x : String} {k n s : Token} :
      k.kind = .keyword .letKw → n.kind = .identifier x → s.kind = .symbol .semicolon →
      Statement strict (.declare x none false k.pos) [k, n, s]
  | set {x : String} {constant : Bool} {e : Expr} {k n a s : Token} {w : List Token} :
      k.kind = .keyword (declarationKeyword constant) → n.kind = .identifier x →
      a.kind = .symbol .assign → Derives .assignment e w → s.kind = .symbol .semicolon →
      Statement strict (.declare x (some e) constant k.pos) (k :: n :: a :: (w ++ [s]))
  | bare {s : Stmt} {w : List Token} : Clause strict s w → Statement strict s w
  | ended {s : Stmt} {w : List Token} {t : Token} :
      Clause strict s w → t.kind = .symbol .semicolon → Statement strict s (w ++ [t])

/-- The tokens that form a statement which needs no semicolon, without one. -/
inductive Clause (strict : Bool) : Stmt → List Token → Prop
  | function {x : String} {xs : List String} {body : List Stmt} {k n l : Token} {u v : List Token} :
      k.kind = .keyword .fnKw → n.kind = .identifier x → l.kind = .symbol .leftParen →
      Params xs u → Block strict body v →
      Clause strict (.function x xs body k.pos) (k :: n :: l :: (u ++ v))
  | loop {x : Float} {count : Nat} {body : List Stmt} {k n : Token} {w : List Token} :
      k.kind = .keyword .forKw → n.kind = .number x → Number.IsCount x count →
      Block strict body w → Clause strict (.loop count body k.pos) (k :: n :: w)
  | whileLoop {condition : Expr} {body : List Stmt} {k : Token} {u v : List Token} :
      k.kind = .keyword .whileKw → Derives .assignment condition u → Block strict body v →
      Clause strict (.whileLoop condition body k.pos) (k :: (u ++ v))
  | expr {e : Expr} {w : List Token} : Derives .assignment e w → Clause strict (.expr e) w

/-- Statements between braces. -/
inductive Block (strict : Bool) : List Stmt → List Token → Prop
  | braces {body : List Stmt} {l r : Token} {w : List Token} :
      l.kind = .symbol .leftBrace → Statements strict body w → r.kind = .symbol .rightBrace →
      Block strict body (l :: (w ++ [r]))

/-- Statements one after another. -/
inductive Statements (strict : Bool) : List Stmt → List Token → Prop
  | nil : Statements strict [] []
  | cons {s : Stmt} {ss : List Stmt} {u v : List Token} :
      Statement strict s u → Statements strict ss v → (strict = true → Apart u v) →
      Statements strict (s :: ss) (u ++ v)

end

/-- The tokens that form a program. -/
def Derivable (p : Program) (w : List Token) : Prop :=
  Statements false p w

/-! ## What may follow an expression -/

/-- A token that is read into an expression of the slot if it comes right after it. -/
def Slot.ContinuedBy : Slot → Token.Kind → Prop
  | .primary, _ => False
  | .call, k => k = .symbol .leftParen
  | .level n, k => k = .symbol .leftParen ∨ ∃ op, k.operator? = some op ∧ op.tier.level ≤ n
  | .assignment, k => k = .symbol .leftParen ∨ k.operator?.isSome ∨ k = .symbol .assign

/-- No token that continues an expression of the slot comes next. -/
def Stops (slot : Slot) (rest : List Token) : Prop :=
  ∀ t ∈ rest.head?, ¬ slot.ContinuedBy t.kind

@[simp] theorem stops_nil (slot : Slot) : Stops slot [] := by
  simp [Stops]

@[simp] theorem stops_cons (slot : Slot) (t : Token) (rest : List Token) :
    Stops slot (t :: rest) ↔ ¬ slot.ContinuedBy t.kind := by
  simp [Stops]

theorem Stops.mono {slot slot' : Slot} {rest : List Token} (h : Stops slot rest)
    (hle : ∀ k, slot'.ContinuedBy k → slot.ContinuedBy k) : Stops slot' rest :=
  fun t ht hk => h t ht (hle _ hk)

/-- What ends an expression of one level ends one of the next tighter level. -/
theorem Stops.tighter {n : Nat} {rest : List Token} (h : Stops (.level (n + 1)) rest) :
    Stops (.level n) rest := by
  refine h.mono fun k hk => ?_
  rcases hk with hk | ⟨op, hop, hlevel⟩
  · exact Or.inl hk
  · exact Or.inr ⟨op, hop, by omega⟩

/-- What ends an operand of any level ends a call. -/
theorem Stops.call {n : Nat} {rest : List Token} (h : Stops (.level n) rest) : Stops .call rest :=
  h.mono fun _ hk => Or.inl hk

/-- What ends a whole expression ends an operand of the loosest operators. -/
theorem Stops.logical {rest : List Token} (h : Stops .assignment rest) : Stops .logical rest := by
  refine h.mono fun k hk => ?_
  rcases hk with hk | ⟨op, hop, -⟩
  · exact Or.inl hk
  · exact Or.inr (Or.inl (by rw [hop]; rfl))

/-- The symbols that stand between or after expressions and continue none. -/
def separates : Symbol → Bool
  | .rightParen | .comma | .semicolon | .leftBrace | .rightBrace => true
  | _ => false

/-- A separator ends an expression of every slot. -/
theorem stops_separator {s : Symbol} {t : Token} (slot : Slot) (ht : t.kind = .symbol s)
    (hs : separates s = true) (rest : List Token) : Stops slot (t :: rest) := by
  have hparen : t.kind ≠ .symbol .leftParen := by
    rw [ht]
    rintro ⟨⟩
    cases hs
  have hassign : t.kind ≠ .symbol .assign := by
    rw [ht]
    rintro ⟨⟩
    cases hs
  have hop : t.kind.operator? = none := by
    rw [ht]
    cases s <;> first | rfl | cases hs
  rw [stops_cons]
  cases slot with
  | assignment => simp [Slot.ContinuedBy, hparen, hassign, hop]
  | level n => simp [Slot.ContinuedBy, hparen, hop]
  | call => exact hparen
  | primary => exact id

/-- Operators have levels from one to five. -/
theorem level_pos (op : Operator) : 0 < op.tier.level := by
  cases op <;> decide

theorem level_le_logical (op : Operator) : op.tier.level ≤ Tier.logical.level := by
  cases op <;> decide

/-- A whole expression ends where an operand of the loosest operators ends and no assignment sign
comes next. -/
theorem stops_assignment_iff (rest : List Token) :
    Stops .assignment rest ↔
      Stops .logical rest ∧ ∀ t ∈ rest.head?, t.kind ≠ .symbol .assign := by
  constructor
  · intro h
    exact ⟨h.logical, fun t ht hk => h t ht (Or.inr (Or.inr hk))⟩
  · rintro ⟨h, hassign⟩ t ht (hk | hk | hk)
    · exact h t ht (Or.inl hk)
    · obtain ⟨op, hop⟩ := Option.isSome_iff_exists.mp hk
      exact h t ht (Or.inr ⟨op, hop, level_le_logical op⟩)
    · exact hassign t ht hk

/-- No operator has level zero, so what ends a call ends a negation. -/
theorem stops_level_zero {rest : List Token} : Stops (.level 0) rest ↔ Stops .call rest := by
  refine ⟨Stops.call, fun h => h.mono ?_⟩
  rintro k (hk | ⟨op, -, hlevel⟩)
  · exact hk
  · exact absurd (level_pos op) (by omega)

/-- An operator of the level above does not continue an operand. -/
theorem stops_operator {n : Nat} {op : Operator} {t : Token} (hop : t.kind.operator? = some op)
    (hlevel : op.tier.level = n + 1) (rest : List Token) : Stops (.level n) (t :: rest) := by
  rw [stops_cons]
  rintro (hk | ⟨op', hop', hle⟩)
  · rw [hk] at hop
    cases hop
  · rw [hop, Option.some.injEq] at hop'
    subst hop'
    omega

theorem Chain.stops {n : Nat} {left e : Expr} {v rest : List Token} (h : Chain n left e v)
    (hstop : Stops (.level (n + 1)) rest) : Stops (.level n) (v ++ rest) := by
  cases h with
  | done => exact hstop.tighter
  | step hop hlevel _ _ => exact stops_operator hop hlevel _

/-- An operand ends before the operators of a chain, and before one more of them. -/
theorem Chain.stops_operator {n : Nat} {left e : Expr} {op : Operator} {t : Token} {v : List Token}
    (h : Chain n left e v) (hop : t.kind.operator? = some op) (hlevel : op.tier.level = n + 1)
    (rest : List Token) : Stops (.level n) (v ++ t :: rest) := by
  cases h with
  | done => exact Grammar.stops_operator hop hlevel rest
  | step hop' hlevel' _ _ => exact Grammar.stops_operator hop' hlevel' _

/-- After an operand, its level and the next operator decide whether a chain goes on. -/
theorem stops_succ {n : Nat} {rest : List Token} (h : Stops (.level n) rest)
    (hop : ∀ t ∈ rest.head?, ∀ op, t.kind.operator? = some op → op.tier.level ≠ n + 1) :
    Stops (.level (n + 1)) rest := by
  rintro t ht (hk | ⟨op, hk, hle⟩)
  · exact h t ht (Or.inl hk)
  · have hne := hop t ht op hk
    exact h t ht (Or.inr ⟨op, hk, by omega⟩)

/-! ## First and last tokens -/

/-- The tokens that an expression starts with. -/
def OpensExpression : Token.Kind → Prop
  | .identifier _ | .number _ | .symbol .leftParen | .symbol .not => True
  | _ => False

/-- The tokens that an expression ends with. -/
def ClosesExpression : Token.Kind → Prop
  | .identifier _ | .number _ | .symbol .rightParen => True
  | _ => False

/-- Expressions open with a token other than a closing parenthesis. -/
theorem OpensExpression.ne_rightParen {k : Token.Kind} (h : OpensExpression k) :
    k ≠ .symbol .rightParen := by
  rintro rfl
  exact h

/-- The tokens that a statement starts with. -/
def OpensStatement : Token.Kind → Prop
  | .keyword _ => True
  | k => OpensExpression k

theorem mem_head?_append {t : Token} {u : List Token} (h : t ∈ u.head?) (v : List Token) :
    t ∈ (u ++ v).head? := by
  rw [Option.mem_def] at h ⊢
  simp [h]

/-- The first token of nonempty tokens and others is one of the former. -/
theorem mem_head?_of_append {t : Token} {u v : List Token} (hu : u ≠ [])
    (h : t ∈ (u ++ v).head?) : t ∈ u.head? := by
  cases u with
  | nil => exact absurd rfl hu
  | cons => exact h

theorem mem_getLast?_append {t : Token} {v : List Token} (h : t ∈ v.getLast?) (u : List Token) :
    t ∈ (u ++ v).getLast? := by
  rw [Option.mem_def] at h ⊢
  simp [h]

theorem mem_getLast?_cons {t : Token} {v : List Token} (h : t ∈ v.getLast?) (k : Token) :
    t ∈ (k :: v).getLast? :=
  mem_getLast?_append h [k]

/-- An expression has a first token, and that opens it. -/
theorem Derives.head {slot : Slot} {e : Expr} {w : List Token} :
    Derives slot e w → ∃ t ∈ w.head?, OpensExpression t.kind
  | .operand h => h.head
  | .assign h _ _ | .operators h _ | .calls h _ => by
    obtain ⟨t, ht, hk⟩ := h.head
    exact ⟨t, mem_head?_append ht _, hk⟩
  | .not ht _ => ⟨_, rfl, by rw [ht]; trivial⟩
  | .positive h => h.head
  | .identifier ht | .number ht | .paren ht _ _ => ⟨_, rfl, by rw [ht]; trivial⟩

theorem Derives.ne_nil {slot : Slot} {e : Expr} {w : List Token} (h : Derives slot e w) :
    w ≠ [] := by
  obtain ⟨t, ht, -⟩ := h.head
  rintro rfl
  cases ht

theorem Derives.length_pos {slot : Slot} {e : Expr} {w : List Token} (h : Derives slot e w) :
    0 < w.length :=
  List.length_pos_iff.mpr h.ne_nil

/-- A call does not open with a negation sign. -/
theorem Derives.call_head_ne_not {e : Expr} {w : List Token} (h : Derives .call e w) :
    ∀ t ∈ w.head?, t.kind ≠ .symbol .not := by
  cases h with
  | calls hu hv =>
    cases hu with
    | identifier hk | number hk | paren hk _ _ =>
      rintro t ⟨⟩ hnot
      rw [hk] at hnot
      cases hnot

/-- Arguments end with their closing parenthesis. -/
theorem Arguments.getLast {args : List Expr} {w : List Token} :
    Arguments args w → ∃ t ∈ w.getLast?, t.kind = .symbol .rightParen
  | .none ht => ⟨_, rfl, ht⟩
  | .last _ ht => ⟨_, mem_getLast?_append rfl _, ht⟩
  | .more _ _ h => by
    obtain ⟨t, ht, hk⟩ := h.getLast
    exact ⟨t, mem_getLast?_append (mem_getLast?_cons ht _) _, hk⟩

/-- Argument lists leave the last token to the callee, or end with a closing parenthesis. -/
theorem Calls.getLast {callee e : Expr} {v : List Token} :
    Calls callee e v → v = [] ∨ ∃ t ∈ v.getLast?, t.kind = .symbol .rightParen
  | .done => Or.inl rfl
  | .step (u := u) (v := v) (t := l) _ hargs h => by
    refine Or.inr ?_
    rcases h.getLast with rfl | ⟨t, ht, hk⟩
    · obtain ⟨t, ht, hk⟩ := hargs.getLast
      rw [List.append_nil]
      exact ⟨t, mem_getLast?_cons ht l, hk⟩
    · exact ⟨t, mem_getLast?_cons (mem_getLast?_append ht u) l, hk⟩

mutual

/-- An expression has a last token, and that closes it. -/
theorem Derives.getLast {slot : Slot} {e : Expr} {w : List Token} :
    Derives slot e w → ∃ t ∈ w.getLast?, ClosesExpression t.kind
  | .operand h => h.getLast
  | .assign _ _ h => by
    obtain ⟨t, ht, hk⟩ := h.getLast
    exact ⟨t, mem_getLast?_append (mem_getLast?_cons ht _) _, hk⟩
  | .operators (u := u) h hchain => by
    rcases hchain.getLast with rfl | ⟨t, ht, hk⟩
    · rw [List.append_nil]
      exact h.getLast
    · exact ⟨t, mem_getLast?_append ht u, hk⟩
  | .not _ h => by
    obtain ⟨t, ht, hk⟩ := h.getLast
    exact ⟨t, mem_getLast?_cons ht _, hk⟩
  | .positive h => h.getLast
  | .calls (u := u) h hcalls => by
    rcases hcalls.getLast with rfl | ⟨t, ht, hk⟩
    · rw [List.append_nil]
      exact h.getLast
    · exact ⟨t, mem_getLast?_append ht u, by rw [hk]; trivial⟩
  | .identifier (t := t) ht | .number (t := t) ht => ⟨t, rfl, by rw [ht]; trivial⟩
  | .paren (r := r) _ _ ht =>
    ⟨r, mem_getLast?_cons (mem_getLast?_append rfl _) _, by rw [ht]; trivial⟩

/-- A chain leaves the last token to its first operand, or ends as an expression does. -/
theorem Chain.getLast {n : Nat} {left e : Expr} {v : List Token} :
    Chain n left e v → v = [] ∨ ∃ t ∈ v.getLast?, ClosesExpression t.kind
  | .done => Or.inl rfl
  | .step (u := u) (t := o) _ _ hright h => by
    refine Or.inr ?_
    rcases h.getLast with rfl | ⟨t, ht, hk⟩
    · obtain ⟨t, ht, hk⟩ := hright.getLast
      rw [List.append_nil]
      exact ⟨t, mem_getLast?_cons ht o, hk⟩
    · exact ⟨t, mem_getLast?_cons (mem_getLast?_append ht u) o, hk⟩

end

/-- A closing token of an expression ends no statement for certain. -/
theorem ClosesExpression.not_end {k : Token.Kind} (h : ClosesExpression k) :
    k ≠ .symbol .semicolon ∧ k ≠ .symbol .rightBrace := by
  refine ⟨?_, ?_⟩ <;> rintro rfl <;> exact h

theorem Block.getLast {strict : Bool} {body : List Stmt} {w : List Token} :
    Block strict body w → ∃ t ∈ w.getLast?, t.kind = .symbol .rightBrace
  | .braces (r := r) _ _ hr => ⟨r, mem_getLast?_cons (mem_getLast?_append rfl _) _, hr⟩

/-- A statement that needs no semicolon ends with a brace, unless it is an expression. -/
theorem Clause.getLast {strict : Bool} {s : Stmt} {w : List Token} :
    Clause strict s w → (∃ t ∈ w.getLast?, t.kind = .symbol .rightBrace) ∨
      ∃ e, s = .expr e ∧ Derives .assignment e w
  | .function _ _ _ _ hbody => by
    obtain ⟨t, ht, hk⟩ := hbody.getLast
    refine Or.inl ⟨t, ?_, hk⟩
    exact mem_getLast?_cons (mem_getLast?_cons (mem_getLast?_cons (mem_getLast?_append ht _) _) _) _
  | .loop _ _ _ hbody => by
    obtain ⟨t, ht, hk⟩ := hbody.getLast
    exact Or.inl ⟨t, mem_getLast?_cons (mem_getLast?_cons ht _) _, hk⟩
  | .whileLoop _ _ hbody => by
    obtain ⟨t, ht, hk⟩ := hbody.getLast
    exact Or.inl ⟨t, mem_getLast?_cons (mem_getLast?_append ht _) _, hk⟩
  | .expr h => Or.inr ⟨_, rfl, h⟩

theorem opensStatement_of_opensExpression {k : Token.Kind} (h : OpensExpression k) :
    OpensStatement k := by
  cases k <;> trivial

theorem Clause.head {strict : Bool} {s : Stmt} {w : List Token} :
    Clause strict s w → ∃ t ∈ w.head?, OpensStatement t.kind
  | .function hk _ _ _ _ | .loop hk _ _ _ | .whileLoop hk _ _ => ⟨_, rfl, by rw [hk]; trivial⟩
  | .expr h => by
    obtain ⟨t, ht, hk⟩ := h.head
    exact ⟨t, ht, opensStatement_of_opensExpression hk⟩

/-- A statement has a first token, and that opens it. -/
theorem Statement.head {strict : Bool} {s : Stmt} {w : List Token} :
    Statement strict s w → ∃ t ∈ w.head?, OpensStatement t.kind
  | .unset hk _ _ | .set hk _ _ _ _ => ⟨_, rfl, by rw [hk]; trivial⟩
  | .bare h => h.head
  | .ended h _ => by
    obtain ⟨t, ht, hk⟩ := h.head
    exact ⟨t, mem_head?_append ht _, hk⟩

theorem Clause.ne_nil {strict : Bool} {s : Stmt} {w : List Token} (h : Clause strict s w) :
    w ≠ [] := by
  obtain ⟨t, ht, -⟩ := h.head
  rintro rfl
  cases ht

theorem Statement.ne_nil {strict : Bool} {s : Stmt} {w : List Token} (h : Statement strict s w) :
    w ≠ [] := by
  obtain ⟨t, ht, -⟩ := h.head
  rintro rfl
  cases ht

theorem Statement.length_pos {strict : Bool} {s : Stmt} {w : List Token}
    (h : Statement strict s w) : 0 < w.length :=
  List.length_pos_iff.mpr h.ne_nil

end Scriptlet.Grammar
