import Scriptlet.Proofs.Parser.Statement

/-! # Where the nodes of a tree stand

An expression stands at the first of its tokens that is no opening parenthesis, and so does every
expression in it, with respect to the tokens that it was read from itself. A statement stands at its
keyword, or where its expression stands.

`Placed` relates an expression to the tokens it was read from and says so at every node; the nodes
of a chain of operators or calls take their positions from the left, where the tokens begin.
-/

namespace Scriptlet.Grammar

/-! ## Expressions -/

/-- The first of the tokens that is no opening parenthesis stands at the given position. -/
def Leads (w : List Token) (p : Position) : Prop :=
  ∃ t ∈ w.find? fun t => !Parser.isSymbol .leftParen t, t.pos = p

section Leads

variable {w : List Token} {p : Position} {t : Token}

theorem Leads.append (h : Leads w p) (v : List Token) : Leads (w ++ v) p := by
  obtain ⟨t, ht, hp⟩ := h
  refine ⟨t, ?_, hp⟩
  rw [Option.mem_def] at ht ⊢
  rw [List.find?_append, ht, Option.some_or]

/-- Opening parentheses do not lead. -/
theorem Leads.enclosed (h : Leads w p) (ht : t.kind = .symbol .leftParen) : Leads (t :: w) p := by
  obtain ⟨u, hu, hp⟩ := h
  have hparen : Parser.isSymbol .leftParen t = true := Parser.isSymbol_iff.mpr ht
  exact ⟨u, by simpa [List.find?_cons, hparen] using hu, hp⟩

theorem leads_cons (ht : t.kind ≠ .symbol .leftParen) (w : List Token) : Leads (t :: w) t.pos := by
  have hparen : ¬ Parser.isSymbol .leftParen t = true := mt Parser.isSymbol_iff.mp ht
  exact ⟨t, by simp [hparen], rfl⟩

end Leads

mutual

/-- An expression and the tokens it was read from. Every node stands at the first of its own tokens
that is no opening parenthesis. -/
inductive Placed : Expr → List Token → Prop
  | identifier {t : Token} {x : String} {p : Position} :
      t.kind = .identifier x → Leads [t] p → Placed (.identifier x p) [t]
  | number {t : Token} {x : Float} {p : Position} :
      t.kind = .number x → Leads [t] p → Placed (.number x p) [t]
  | paren {e : Expr} {l r : Token} {w : List Token} :
      l.kind = .symbol .leftParen → Placed e w → r.kind = .symbol .rightParen →
      Placed e (l :: (w ++ [r]))
  | call {callee : Expr} {args : List Expr} {l : Token} {u v : List Token} {p : Position} :
      Placed callee u → l.kind = .symbol .leftParen → PlacedArguments args v →
      Leads (u ++ l :: v) p → Placed (.call callee args p) (u ++ l :: v)
  | not {operand : Expr} {t : Token} {w : List Token} {p : Position} :
      t.kind = .symbol .not → Placed operand w → Leads (t :: w) p → Placed (.not operand p) (t :: w)
  | binary {op : Operator} {left right : Expr} {t : Token} {u v : List Token} {p : Position} :
      Placed left u → t.kind.operator? = some op → Placed right v → Leads (u ++ t :: v) p →
      Placed (.binary op left right p) (u ++ t :: v)
  | assign {target value : Expr} {t : Token} {u v : List Token} {p : Position} :
      Placed target u → t.kind = .symbol .assign → Placed value v → Leads (u ++ t :: v) p →
      Placed (.assign target value p) (u ++ t :: v)

/-- Expressions separated by commas, with the closing parenthesis, and the tokens they were read
from. -/
inductive PlacedArguments : List Expr → List Token → Prop
  | none {r : Token} : r.kind = .symbol .rightParen → PlacedArguments [] [r]
  | last {e : Expr} {u : List Token} {r : Token} :
      Placed e u → r.kind = .symbol .rightParen → PlacedArguments [e] (u ++ [r])
  | more {e e' : Expr} {es : List Expr} {u v : List Token} {c : Token} :
      Placed e u → c.kind = .symbol .comma → PlacedArguments (e' :: es) v →
      PlacedArguments (e :: e' :: es) (u ++ c :: v)

end

theorem Placed.leads {e : Expr} {w : List Token} : Placed e w → Leads w e.pos
  | .paren hl h _ => (h.leads.append _).enclosed hl
  | .identifier _ hp | .number _ hp | .call _ _ _ hp | .not _ _ hp | .binary _ _ _ hp
  | .assign _ _ _ hp => hp

mutual

/-- Expressions of the grammar stand where their tokens lead. -/
theorem Derives.placed {slot : Slot} {e : Expr} {w : List Token} : Derives slot e w → Placed e w
  | .operand h | .positive h => h.placed
  | .assign htarget ht hvalue =>
    .assign htarget.placed ht hvalue.placed (htarget.placed.leads.append _)
  | .operators h hchain => hchain.placed h.placed
  | .not ht h => .not ht h.placed (leads_cons (by simp [ht]) _)
  | .calls h hcalls => hcalls.placed h.placed
  | .identifier ht => .identifier ht (leads_cons (by simp [ht]) [])
  | .number ht => .number ht (leads_cons (by simp [ht]) [])
  | .paren hl h hr => .paren hl h.placed hr

/-- Operators keep the place of their first operand. -/
theorem Chain.placed {n : Nat} {left e : Expr} {u v : List Token} :
    Chain n left e v → Placed left u → Placed e (u ++ v)
  | .done, hleft => by
    rw [List.append_nil]
    exact hleft
  | .step (t := t) (u := u') hop _ hright h, hleft => by
    have hstep : Placed _ (u ++ t :: u') :=
      .binary hleft hop hright.placed (hleft.leads.append _)
    have hmore := h.placed hstep
    rw [List.append_assoc] at hmore
    exact hmore

/-- Calls keep the place of what is called first. -/
theorem Calls.placed {callee e : Expr} {u v : List Token} :
    Calls callee e v → Placed callee u → Placed e (u ++ v)
  | .done, hcallee => by
    rw [List.append_nil]
    exact hcallee
  | .step (t := t) (u := u') hl hargs h, hcallee => by
    have hstep : Placed _ (u ++ t :: u') :=
      .call hcallee hl hargs.placed (hcallee.leads.append _)
    have hmore := h.placed hstep
    rw [List.append_assoc] at hmore
    exact hmore

theorem Arguments.placed {args : List Expr} {w : List Token} :
    Arguments args w → PlacedArguments args w
  | .none hr => .none hr
  | .last h hr => .last h.placed hr
  | .more h hc hargs => .more h.placed hc hargs.placed

end

/-! ## Statements -/

mutual

/-- A statement and the tokens it was read from. It stands at its keyword, or where its expression
stands, and so do the statements in it; its expressions are placed. -/
inductive PlacedStatement : Stmt → List Token → Prop
  | unset {x : String} {constant : Bool} {k : Token} {w : List Token} :
      k.kind = .keyword (declarationKeyword constant) →
      PlacedStatement (.declare x none constant k.pos) (k :: w)
  | set {x : String} {constant : Bool} {value : Expr} {k : Token} {u w : List Token} :
      k.kind = .keyword (declarationKeyword constant) → Placed value u → u <:+: w →
      PlacedStatement (.declare x (some value) constant k.pos) (k :: w)
  | function {x : String} {xs : List String} {body : List Stmt} {k : Token} {u w : List Token} :
      k.kind = .keyword .fnKw → PlacedStatements body u → u <:+: w →
      PlacedStatement (.function x xs body k.pos) (k :: w)
  | loop {count : Nat} {body : List Stmt} {k : Token} {u w : List Token} :
      k.kind = .keyword .forKw → PlacedStatements body u → u <:+: w →
      PlacedStatement (.loop count body k.pos) (k :: w)
  | whileLoop {condition : Expr} {body : List Stmt} {k : Token} {u v w : List Token} :
      k.kind = .keyword .whileKw → Placed condition u → PlacedStatements body v → v <:+: w →
      PlacedStatement (.whileLoop condition body k.pos) (k :: (u ++ w))
  | expr {e : Expr} {u w : List Token} : Placed e u → PlacedStatement (.expr e) (u ++ w)

/-- Statements and the tokens they were read from, one after another. -/
inductive PlacedStatements : List Stmt → List Token → Prop
  | nil : PlacedStatements [] []
  | cons {s : Stmt} {ss : List Stmt} {u v : List Token} :
      PlacedStatement s u → PlacedStatements ss v → PlacedStatements (s :: ss) (u ++ v)

end

/-- A semicolon after a statement does not change its place. -/
theorem PlacedStatement.append {s : Stmt} {w : List Token} (h : PlacedStatement s w)
    (v : List Token) : PlacedStatement s (w ++ v) := by
  cases h with
  | unset hk => exact .unset hk
  | set hk hvalue hw => exact .set hk hvalue (hw.trans (List.prefix_append _ v).isInfix)
  | function hk hbody hw => exact .function hk hbody (hw.trans (List.prefix_append _ v).isInfix)
  | loop hk hbody hw => exact .loop hk hbody (hw.trans (List.prefix_append _ v).isInfix)
  | whileLoop hk hcondition hbody hw =>
    rw [List.cons_append, List.append_assoc]
    exact .whileLoop hk hcondition hbody (hw.trans (List.prefix_append _ v).isInfix)
  | expr he =>
    rw [List.append_assoc]
    exact .expr he

variable {strict : Bool}

mutual

/-- Statements of the grammar stand at their keywords, or where their expressions stand. -/
theorem Statement.placed {s : Stmt} {w : List Token} : Statement strict s w → PlacedStatement s w
  | .unset (x := x) hk _ _ => @PlacedStatement.unset x false _ _ hk
  | .set (n := n) (a := a) (s := s) hk _ _ he _ => .set hk he.placed ⟨[n, a], [s], by simp⟩
  | .bare h => h.placed
  | .ended h _ => h.placed.append _

theorem Clause.placed {s : Stmt} {w : List Token} : Clause strict s w → PlacedStatement s w
  | .function (n := n) (l := l) (u := u) hk _ _ _ hbody => by
    obtain ⟨v, hv, hwithin⟩ := hbody.placed
    exact .function hk hv (hwithin.trans (List.suffix_append (n :: l :: u) _).isInfix)
  | .loop (n := n) hk _ _ hbody => by
    obtain ⟨v, hv, hwithin⟩ := hbody.placed
    exact .loop hk hv (hwithin.trans (List.suffix_cons n _).isInfix)
  | .whileLoop hk hcondition hbody => by
    obtain ⟨v, hv, hwithin⟩ := hbody.placed
    exact .whileLoop hk hcondition.placed hv hwithin
  | .expr (w := w) he => by
    rw [← List.append_nil w]
    exact .expr he.placed

/-- The statements of a block stand between its braces. -/
theorem Block.placed {body : List Stmt} {w : List Token} :
    Block strict body w → ∃ v, PlacedStatements body v ∧ v <:+: w
  | .braces (l := l) (r := r) (w := v) _ h _ => ⟨v, h.placed, [l], [r], by simp⟩

theorem Statements.placed {ss : List Stmt} {w : List Token} :
    Statements strict ss w → PlacedStatements ss w
  | .nil => .nil
  | .cons hs hss _ => .cons hs.placed hss.placed

end

end Scriptlet.Grammar

namespace Scriptlet.Parser

open Grammar

variable {bound : Nat} {ts rest : List Token}

/-- The parsers of expressions, from the loosest to the tightest, for lists of at most `bound`
tokens. -/
inductive ExpressionParser (bound : Nat) : Parser Expr → Prop
  | expression : ExpressionParser bound expression
  | assignment : ExpressionParser bound (assignment (expressionWithin bound) bound)
  | tier (t : Tier) : ExpressionParser bound (tier (expressionWithin bound) bound t)
  | unary : ExpressionParser bound (unary (expressionWithin bound) bound)
  | call : ExpressionParser bound (call (expressionWithin bound) bound)
  | primary : ExpressionParser bound (primary (expressionWithin bound))

theorem exists_derives_of_reads {parser : Parser Expr} {slot : Slot} {n : Nat} {e : Expr}
    (hreads : Reads n parser (Whole slot)) (hlen : ts.length < n) (h : parser ts = .ok e rest) :
    ∃ slot w, ts = w ++ rest ∧ Derives slot e w := by
  obtain ⟨w, hw, hderives, -⟩ := (hreads ts e rest hlen).mp h
  exact ⟨slot, w, hw, hderives⟩

/-- What a parser of expressions reads is derived in some slot. -/
theorem ExpressionParser.exists_derives {parser : Parser Expr} {e : Expr}
    (hparser : ExpressionParser bound parser) (hlen : ts.length ≤ bound)
    (h : parser ts = .ok e rest) : ∃ slot w, ts = w ++ rest ∧ Derives slot e w := by
  have hself := expressionWithin_reads bound
  have hbound : ts.length < bound + 1 := Nat.lt_succ_of_le hlen
  cases hparser with
  | expression =>
    exact exists_derives_of_reads (expressionWithin_reads (ts.length + 1)) (Nat.lt_succ_self _) h
  | assignment => exact exists_derives_of_reads (assignment_reads hself le_rfl) hbound h
  | tier t => exact exists_derives_of_reads (chain_reads hself le_rfl t.level) hbound h
  | unary => exact exists_derives_of_reads (unary_reads hself le_rfl) hbound h
  | call => exact exists_derives_of_reads (call_reads hself le_rfl) hbound h
  | primary =>
    obtain ⟨w, hw, hderives⟩ := (primary_reads hself ts e rest hbound).mp h
    exact ⟨.primary, w, hw, hderives⟩

/-- The parsers of statements: of any one, and of one in a list of at most `bound` tokens. -/
inductive StatementParser (bound : Nat) : Parser Stmt → Prop
  | alone : StatementParser bound anyStatement
  | inside : StatementParser bound (statementWithin (bound + 1))

/-- What a parser of statements reads is placed on the tokens that it took. -/
theorem StatementParser.exists_placed {parser : Parser Stmt} {s : Stmt}
    (hparser : StatementParser bound parser) (hlen : ts.length ≤ bound)
    (h : parser ts = .ok s rest) : ∃ w, ts = w ++ rest ∧ PlacedStatement s w := by
  have hread (n : Nat) (hn : ts.length < n) (hs : statementWithin n ts = .ok s rest) :
      ∃ w, ts = w ++ rest ∧ PlacedStatement s w := by
    obtain ⟨w, hw, hstatement, -⟩ := (statementWithin_reads n ts s rest hn).mp hs
    exact ⟨w, hw, hstatement.placed⟩
  cases hparser with
  | alone => exact hread (ts.length + 1) (Nat.lt_succ_self _) h
  | inside => exact hread (bound + 1) (Nat.lt_succ_of_le hlen) h

/-- Whichever parser read it, an expression stands at the first token taken that is no opening
parenthesis, and so does every expression in it with respect to its own tokens. A statement stands
at its keyword, or where its expression stands, and so do the statements in it. -/
theorem nodes_placed (hlen : ts.length ≤ bound) :
    (∀ parser e, ExpressionParser bound parser → parser ts = .ok e rest →
        ∃ w, ts = w ++ rest ∧ Leads w e.pos ∧ Placed e w) ∧
      ∀ parser s, StatementParser bound parser → parser ts = .ok s rest →
        ∃ w, ts = w ++ rest ∧ PlacedStatement s w := by
  refine ⟨fun parser e hparser h => ?_, fun parser s hparser h => ?_⟩
  · obtain ⟨slot, w, hw, hderives⟩ := hparser.exists_derives hlen h
    exact ⟨w, hw, hderives.placed.leads, hderives.placed⟩
  · exact hparser.exists_placed hlen h

/-- The tokens of `((f)(x) - !y)`, on the second line of a text. -/
def groupedCall : List Token :=
  [⟨.symbol .leftParen, ⟨2, 1⟩, ⟨6, 7⟩⟩, ⟨.symbol .leftParen, ⟨2, 2⟩, ⟨7, 8⟩⟩,
    ⟨.identifier "f", ⟨2, 3⟩, ⟨8, 9⟩⟩, ⟨.symbol .rightParen, ⟨2, 4⟩, ⟨9, 10⟩⟩,
    ⟨.symbol .leftParen, ⟨2, 5⟩, ⟨10, 11⟩⟩, ⟨.identifier "x", ⟨2, 6⟩, ⟨11, 12⟩⟩,
    ⟨.symbol .rightParen, ⟨2, 7⟩, ⟨12, 13⟩⟩, ⟨.symbol .minus, ⟨2, 9⟩, ⟨14, 15⟩⟩,
    ⟨.symbol .not, ⟨2, 11⟩, ⟨16, 17⟩⟩, ⟨.identifier "y", ⟨2, 12⟩, ⟨17, 18⟩⟩,
    ⟨.symbol .rightParen, ⟨2, 13⟩, ⟨18, 19⟩⟩]

/-- The difference that these tokens form. -/
def groupedDifference : Expr :=
  .binary .sub (.call (.identifier "f" ⟨2, 3⟩) [.identifier "x" ⟨2, 6⟩] ⟨2, 3⟩)
    (.not (.identifier "y" ⟨2, 12⟩) ⟨2, 11⟩) ⟨2, 3⟩

/-- The difference and the call in it stand at the name that is called, though two parentheses come
before it; a loop with this condition stands at its keyword. -/
theorem groupedCall_placed :
    (∃ w, groupedCall = w ++ [] ∧ Leads w ⟨2, 3⟩ ∧ Placed groupedDifference w) ∧
      ∃ w, ⟨.keyword .whileKw, ⟨1, 1⟩, ⟨0, 5⟩⟩ :: groupedCall ++
          [⟨.symbol .leftBrace, ⟨2, 15⟩, ⟨20, 21⟩⟩, ⟨.symbol .rightBrace, ⟨2, 16⟩, ⟨21, 22⟩⟩] =
            w ++ [] ∧
        PlacedStatement (.whileLoop groupedDifference [] ⟨1, 1⟩) w := by
  refine ⟨?_, ?_⟩
  · have hread : primary (expressionWithin 11) groupedCall = .ok groupedDifference [] := rfl
    have hlen : groupedCall.length ≤ 11 := by decide
    exact (nodes_placed hlen).1 _ _ .primary hread
  · exact (@nodes_placed 14 _ _ (by decide)).2 _ _ .alone rfl

end Scriptlet.Parser
