import Scriptlet.Proofs.Parser.Passes

/-! # Parsers make progress

On every list of tokens, well-formed or not, the procedures of the parsers come to an end, with the
reply of the parser and a suffix of the list left. No more passes begin than there are tokens, unless
the list runs out of them: then one more may have begun (`parsing_progress`), as it does on the
tokens of `x (` (`bareCall_unpaid_pass`).

The bounds that the parsers are given have no part in it: every pass and every call that could repeat
follows a token, so a bound above the number of tokens is never met. This is shown parser by parser,
by induction on the bounds.
-/

namespace Scriptlet.Parser

open Procedure

/-! ## The bounds are never met -/

variable {α β : Type} {bound bound' passes : Nat}

/-- On lists of fewer than `bound` tokens the procedure comes to an end, with the reply of the
parser. -/
def Performs (bound : Nat) (p : Parser α) (c : Procedure α) : Prop :=
  ∀ ts, ts.length < bound → ∃ n, c.Runs ts n (p ts)

section Rules

variable {p q : Parser α} {c d : Procedure α} {f : α → Parser β} {k : α → Procedure β}

/-- A parser that is good for more tokens is good for fewer. -/
theorem Performs.mono (h : Performs bound p c) (hle : bound' ≤ bound) : Performs bound' p c :=
  fun ts hlen => h ts (by omega)

/-- One parser after another. The second may have another bound if what the first leaves is
shorter. -/
theorem Performs.bind_of_lt (hp : Performs bound p c) (hf : ∀ a, Performs bound' (f a) (k a))
    (hlt : ∀ ts n a mid, c.Runs ts n (.ok a mid) → ts.length < bound → mid.length < bound') :
    Performs bound (p >>= f) (c >>= k) := by
  intro ts hlen
  obtain ⟨m, hrun⟩ := hp ts hlen
  rw [bind_apply]
  cases hreply : p ts with
  | ok a mid =>
    rw [hreply] at hrun
    obtain ⟨n, hnext⟩ := hf a mid (hlt ts m a mid hrun hlen)
    exact ⟨m + n, hrun.bind hnext⟩
  | error e rest =>
    rw [hreply] at hrun
    exact ⟨m, hrun.bind_error⟩

/-- Parsers in turn perform procedures in turn. What the first leaves is no longer than what it was
given, so the bound is good for the second. -/
theorem Performs.bind (hp : Performs bound p c) (hf : ∀ a, Performs bound (f a) (k a)) :
    Performs bound (p >>= f) (c >>= k) :=
  hp.bind_of_lt hf fun _ _ _ _ hrun hlen => Nat.lt_of_le_of_lt hrun.suffix.length_le hlen

/-- After a parser that takes a token the bound may be smaller. -/
theorem Performs.bind_of_handles (hp : Performs (bound + 1) p c) (hc : Handles true True c)
    (hf : ∀ a, Performs bound (f a) (k a)) : Performs (bound + 1) (p >>= f) (c >>= k) :=
  hp.bind_of_lt hf fun _ _ _ _ hrun hlen => by
    have hlt := hrun.length_lt hc
    omega

theorem performs_pure (a : α) : Performs bound (pure a) (pure a) :=
  fun _ _ => ⟨0, .answer⟩

theorem performs_fail (e : SyntaxError) : Performs bound (fail e : Parser α) (.fail e) :=
  fun _ _ => ⟨0, .fail⟩

/-- The next token is taken, or the end of the tokens is reported; both are one step of the
procedure. -/
theorem performs_next : Performs bound next Procedure.next := by
  intro ts _
  cases ts with
  | nil => exact ⟨0, .takeNone⟩
  | cons t ts => exact ⟨0, .take .answer⟩

/-- After a token the bound may be smaller. -/
theorem performs_next_bind {f : Token → Parser α} {k : Token → Procedure α}
    (hf : ∀ t, Performs bound (f t) (k t)) :
    Performs (bound + 1) (next >>= f) (Procedure.next >>= k) := by
  have hnext : Handles true True Procedure.next := .take (fun _ => .answer) (.inl trivial)
  exact performs_next.bind_of_handles hnext hf

theorem performs_peek : Performs bound peek Procedure.peek := by
  intro ts _
  cases ts with
  | nil => exact ⟨0, .look .fail⟩
  | cons t ts => exact ⟨0, .look .answer⟩

theorem performs_ite {P : Prop} [Decidable P] (hp : Performs bound p c) (hq : Performs bound q d) :
    Performs bound (if P then p else q) (if P then c else d) := by
  split
  · exact hp
  · exact hq

/-- A symbol is looked at, and taken if it is the one. -/
theorem performs_skipIf (s : Symbol) : Performs bound (skipIf s) (Procedure.skipIf s) := by
  intro ts _
  refine ⟨0, .look ?_⟩
  cases ts with
  | nil => exact .answer
  | cons t ts =>
    rw [skipIf, List.head?_cons, Option.any_some]
    split
    · exact .take .answer
    · exact .answer

/-- A choice by the next symbol. After the symbol the bound may be smaller. -/
theorem performs_skipIf_ite {s : Symbol} (hp : Performs bound p c)
    (hq : Performs (bound + 1) q d) :
    Performs (bound + 1) (skipIf s >>= fun taken => if taken = true then p else q)
      (Procedure.skipIf s >>= fun taken => if taken = true then c else d) := by
  intro ts hlen
  cases ts with
  | nil =>
    obtain ⟨n, hrun⟩ := hq [] hlen
    exact ⟨n, .look hrun⟩
  | cons t ts =>
    obtain ⟨m, hskip⟩ := performs_skipIf s (t :: ts) hlen
    rw [bind_apply]
    rw [skipIf] at hskip ⊢
    by_cases ht : isSymbol s t = true
    · obtain ⟨n, hrun⟩ := hp ts (Nat.lt_of_succ_lt_succ hlen)
      rw [if_pos ht] at hskip ⊢
      exact ⟨m + n, hskip.bind hrun⟩
    · obtain ⟨n, hrun⟩ := hq (t :: ts) hlen
      rw [if_neg ht] at hskip ⊢
      exact ⟨m + n, hskip.bind hrun⟩

/-- A token is taken, and refused if it is another symbol. -/
theorem performs_expectOr (s : Symbol) (wrong : Token → SyntaxError) :
    Performs bound (expectOr s wrong) (Procedure.expectOr s wrong) :=
  performs_next.bind fun _ => performs_ite (performs_pure ()) (performs_fail _)

theorem performs_expect (s : Symbol) : Performs bound (expect s) (Procedure.expect s) :=
  performs_expectOr s _

/-- A token is taken, and refused if it is no name. -/
theorem performs_name (wrong : Token.Kind → SyntaxError.Cause) :
    Performs bound (name wrong) (Procedure.name wrong) := by
  refine performs_next.bind fun t => ?_
  cases t.kind with
  | identifier x => exact performs_pure x
  | _ => exact performs_fail _

/-- To call a routine is to carry out its procedure. -/
theorem Performs.run {r : Routine} {p : Parser r.Result} (h : Performs bound p r.procedure) :
    Performs bound p (run r) := by
  intro ts hlen
  obtain ⟨n, hrun⟩ := h ts hlen
  exact ⟨n, hrun.run⟩

end Rules

/-! ### Loops

A loop with as many passes as there are tokens is not cut short: after a pass there is one pass less
to make, and at least one token less.
-/

section Loops

variable {l : Loop} {state : l.State} {ts : List Token} {reply : Reply l.State}

/-- If a pass begins and the loop goes on to end, the loop ends. -/
theorem Loop.ends_of_pass {pass : Procedure (Turn l.State)}
    (hpass : l.pass? state ts.head? = some pass) (h : ∃ n, (pass >>= l.resume).Runs ts n reply) :
    ∃ n, (Routine.loop l state).procedure.Runs ts n reply := by
  obtain ⟨n, h⟩ := h
  refine ⟨n + 1, .look ?_⟩
  rw [hpass]
  exact .pass h

/-- If no pass begins, the loop ends at once with what it holds. -/
theorem Loop.ends_of_none (hpass : l.pass? state ts.head? = none) :
    ∃ n, (Routine.loop l state).procedure.Runs ts n (.ok (l.finish state) ts) := by
  refine ⟨0, .look ?_⟩
  rw [hpass]
  exact .answer

end Loops

/-! ### Expressions -/

section Expressions

variable {self : Parser Expr}

/-- The items of a list, as one pass each. A pass takes at least the token after its item, so one
pass for each token is enough. -/
theorem performs_items (hself : Performs bound self (run .expression)) (hbound : bound ≤ passes + 1)
    (before : List Expr) :
    Performs bound (items self passes before) (Routine.loop .items before).procedure := by
  induction passes generalizing bound before with
  | zero =>
    intro ts hlen
    obtain rfl : ts = [] := List.length_eq_zero_iff.mp (by omega)
    -- no pass is left to make, but no token either, and a pass would fail in the same way
    obtain ⟨n, hitem⟩ := hself [] hlen
    obtain ⟨-, hreply⟩ := hitem.nil (handles_run_of_takes rfl fun _ => trivial)
    rw [hreply] at hitem
    exact Loop.ends_of_pass rfl ⟨n, hitem.bind_error.bind_error⟩
  | succ passes ih =>
    intro ts hlen
    cases bound with
    | zero => exact absurd hlen (Nat.not_lt_zero _)
    | succ bound =>
      have hmore := ih (hself.mono (Nat.le_succ bound)) (Nat.le_of_succ_le_succ hbound)
      have hpass : Performs (bound + 1) (items self (passes + 1) before)
          (itemPass before >>= Loop.items.resume) := by
        rw [itemPass, Procedure.bind_assoc]
        refine hself.bind fun item => ?_
        rw [Procedure.bind_assoc]
        refine performs_next_bind fun t => ?_
        by_cases hcomma : isSymbol .comma t = true
        · rw [if_pos hcomma, if_pos hcomma]
          exact (hmore (item :: before)).run
        · rw [if_neg hcomma, if_neg hcomma]
          by_cases hclose : isSymbol .rightParen t = true
          · rw [if_pos hclose, if_pos hclose]
            exact performs_pure _
          · rw [if_neg hclose, if_neg hclose]
            exact performs_fail _
      exact Loop.ends_of_pass rfl (hpass ts hlen)

theorem performs_commaList (hself : Performs bound self (run .expression))
    (hbound : bound ≤ passes + 1) :
    Performs bound (commaList self passes) Routine.commaList.procedure :=
  (performs_skipIf _).bind fun _ =>
    performs_ite (performs_pure []) (performs_items hself hbound []).run

/-- A group, which is a token and an expression after it, may have one token more than the
expressions that are known to be parsed. -/
theorem performs_primary (hself : Performs bound self (run .expression)) :
    Performs (bound + 1) (primary self) Routine.primary.procedure := by
  refine performs_next_bind fun t => ?_
  cases t.kind with
  | identifier x => exact performs_pure _
  | number x => exact performs_pure _
  | symbol s =>
    cases s with
    | leftParen =>
      exact hself.bind fun e => (performs_expect _).bind fun _ => performs_pure e
    | _ => exact performs_fail _
  | _ => exact performs_fail _

/-- Calls one after another, as one pass each. The opening parenthesis comes before the arguments.
-/
theorem performs_callsFrom (hself : Performs bound self (run .expression)) (hbound : bound ≤ passes)
    (callee : Expr) :
    Performs (bound + 1) (callsFrom self passes callee) (Routine.loop .calls callee).procedure := by
  induction passes generalizing bound callee with
  | zero =>
    intro ts hlen
    obtain rfl : ts = [] := List.length_eq_zero_iff.mp (by omega)
    exact Loop.ends_of_none rfl
  | succ passes ih =>
    intro ts hlen
    cases ts with
    | nil => exact Loop.ends_of_none rfl
    | cons t ts =>
      rw [callsFrom, bind_apply, skipIf]
      by_cases hopen : isSymbol .leftParen t = true
      · have hmore (arguments : List Expr) :
            Performs bound (callsFrom self passes (.call callee arguments callee.pos)) _ :=
          (ih (hself.mono (Nat.sub_le bound 1)) (by omega) _).mono (by omega)
        have hpass := (performs_commaList hself hbound).run.bind fun arguments =>
          (hmore arguments).run
        obtain ⟨n, hrun⟩ := hpass ts (Nat.lt_of_succ_lt_succ hlen)
        rw [if_pos hopen]
        exact Loop.ends_of_pass (if_pos hopen) ⟨n, .take hrun⟩
      · rw [if_neg hopen]
        exact Loop.ends_of_none (if_neg hopen)

theorem performs_call (hself : Performs bound self (run .expression)) (hbound : bound ≤ passes) :
    Performs (bound + 1) (call self passes) Routine.call.procedure :=
  (performs_primary hself).run.bind fun e => (performs_callsFrom hself hbound e).run

/-- A negation is a token and a negation of fewer tokens; by induction on their number. -/
theorem performs_unary (hself : Performs bound self (run .expression)) (hbound : bound ≤ passes) :
    Performs (bound + 1) (unary self passes) Routine.unary.procedure := by
  have hcall := (performs_call hself hbound).run
  intro ts
  induction ts with
  | nil =>
    intro hlen
    obtain ⟨n, hrun⟩ := hcall [] hlen
    exact ⟨n, .look hrun⟩
  | cons t ts ih =>
    intro hlen
    by_cases hnot : isSymbol .not t = true
    · obtain ⟨n, hoperand⟩ := ih (Nat.lt_of_succ_lt hlen)
      refine ⟨n, .look ?_⟩
      rw [unary, if_pos hnot, List.head?_cons, Option.any_some, if_pos hnot]
      cases hreply : unary self passes ts with
      | ok e rest =>
        rw [hreply] at hoperand
        exact .take (hoperand.run.bind (f := fun e => pure (Expr.not e t.pos)) .answer)
      | error e rest =>
        rw [hreply] at hoperand
        exact .take hoperand.run.bind_error
    · obtain ⟨n, hrun⟩ := hcall (t :: ts) hlen
      refine ⟨n, .look ?_⟩
      rw [unary, if_neg hnot, List.head?_cons, Option.any_some, if_neg hnot]
      exact hrun

/-- Operands after an operator of one level, as one pass each. -/
theorem performs_chainFrom {operand : Parser Expr} {level : Nat}
    (hoperand : Performs bound operand (run (.tier level))) (hbound : bound ≤ passes + 1)
    (left : Expr) :
    Performs bound (chainFrom (level + 1) operand passes left)
      (Routine.loop (.operators level) left).procedure := by
  induction passes generalizing bound left with
  | zero =>
    intro ts hlen
    obtain rfl : ts = [] := List.length_eq_zero_iff.mp (by omega)
    exact Loop.ends_of_none rfl
  | succ passes ih =>
    intro ts hlen
    cases ts with
    | nil => exact Loop.ends_of_none rfl
    | cons t ts =>
      rw [chainFrom, bind_apply, takeOperator?]
      cases hop : t.kind.operator? with
      | none =>
        refine Loop.ends_of_none ?_
        rw [Loop.pass?, List.head?_cons, Option.bind_some, hop]
      | some op =>
        by_cases hlevel : op.tier.level = level + 1
        · have hmore (right : Expr) :=
            ih (hoperand.mono (Nat.sub_le bound 1)) (by omega) (.binary op left right left.pos)
          have hpass := (hoperand.mono (Nat.sub_le bound 1)).bind fun right => (hmore right).run
          obtain ⟨n, hrun⟩ := hpass ts (by rw [List.length_cons] at hlen; omega)
          have hsome : (Loop.operators level).pass? left (some t) =
              some (operatorPass level op left) := by
            rw [Loop.pass?, Option.bind_some, hop]
            exact if_pos hlevel
          simp only [if_pos hlevel]
          exact Loop.ends_of_pass hsome ⟨n, .take hrun⟩
        · simp only [if_neg hlevel]
          refine Loop.ends_of_none ?_
          rw [Loop.pass?, List.head?_cons, Option.bind_some, hop]
          exact if_neg hlevel

/-- By induction on the level; the operands of a level are chains of the level below. -/
theorem performs_chain (hself : Performs bound self (run .expression)) (hbound : bound ≤ passes)
    (level : Nat) :
    Performs (bound + 1) (chain self passes level) (Routine.tier level).procedure := by
  induction level with
  | zero => exact (performs_unary hself hbound).run
  | succ level ih =>
    exact ih.run.bind fun left => (performs_chainFrom ih.run (Nat.succ_le_succ hbound) left).run

theorem performs_assignment (hself : Performs bound self (run .expression))
    (hbound : bound ≤ passes) :
    Performs (bound + 1) (assignment self passes) Routine.expression.procedure := by
  refine (performs_chain hself hbound _).run.bind fun target => ?_
  exact performs_skipIf_ite (hself.bind fun _ => performs_pure _) (performs_pure target)

end Expressions

/-- By induction on the bound: every parser of expressions calls itself behind a token only. -/
theorem performs_expressionWithin (bound : Nat) :
    Performs bound (expressionWithin bound) Routine.expression.procedure := by
  induction bound with
  | zero => exact fun _ hlen => absurd hlen (Nat.not_lt_zero _)
  | succ bound ih => exact performs_assignment ih.run (Nat.le_refl bound)

/-! ### Statements -/

section Statements

variable {statement : Parser Stmt} {expression : Parser Expr} {block : Parser (List Stmt)}

/-- Statements up to the end of a block or of the tokens, as one pass each. A statement takes at
least one token. -/
theorem performs_statementsUntil {inBlock : Bool}
    (hstatement : Performs bound statement (run .statement)) (hbound : bound ≤ passes + 1)
    (before : List Stmt) :
    Performs bound (statementsUntil (closes inBlock) statement passes before)
      (Routine.loop (.statements inBlock) before).procedure := by
  induction passes generalizing bound before with
  | zero =>
    intro ts hlen
    obtain rfl : ts = [] := List.length_eq_zero_iff.mp (by omega)
    exact Loop.ends_of_none rfl
  | succ passes ih =>
    intro ts hlen
    have hfirst : atEnd ts.head?.toList = atEnd ts := by
      cases ts <;> rfl
    by_cases hend : (atEnd ts || ts.head?.any (closes inBlock)) = true
    · simp only [statementsUntil, if_pos hend]
      refine Loop.ends_of_none ?_
      rw [Loop.pass?, hfirst]
      exact if_pos hend
    · have hsome : (Loop.statements inBlock).pass? before ts.head? = some (statementPass before) := by
        rw [Loop.pass?, hfirst]
        exact if_neg hend
      cases bound with
      | zero => exact absurd hlen (Nat.not_lt_zero _)
      | succ bound =>
        have hmore := ih (hstatement.mono (Nat.le_succ bound)) (Nat.le_of_succ_le_succ hbound)
        have hpass := hstatement.bind_of_handles (handles_run_of_takes rfl fun _ => trivial) fun s =>
          (hmore (s :: before)).run
        obtain ⟨n, hrun⟩ := hpass ts hlen
        rw [bind_apply] at hrun
        refine Loop.ends_of_pass hsome ⟨n, ?_⟩
        simp only [statementsUntil, if_neg hend]
        cases hreply : statement ts <;> rw [hreply] at hrun <;> exact hrun

/-- The opening brace comes before the statements, which are then fewer. -/
theorem performs_block (hstatement : Performs bound statement (run .statement))
    (hbound : bound ≤ passes + 1) :
    Performs (bound + 1) (Parser.block statement passes) Routine.block.procedure := by
  refine (performs_expect _).bind_of_handles (handles_expect _) fun _ => ?_
  refine (performs_statementsUntil hstatement hbound []).run.bind fun body => ?_
  exact (performs_expect _).bind fun _ => performs_pure body

theorem performs_declaration (hexpression : Performs bound expression (run .expression)) :
    Performs bound (declaration expression) Routine.declaration.procedure := by
  refine performs_next.bind fun keyword => (performs_name _).bind fun declared => ?_
  refine (performs_skipIf _).bind fun taken => performs_ite ?_ ?_
  · exact performs_ite (performs_fail _) (performs_pure _)
  · refine (performs_expect _).bind fun _ => hexpression.bind fun value => ?_
    exact (performs_expectOr _ _).bind fun _ => performs_pure _

/-- The parameters are a list of expressions between parentheses, and are judged after all of them
are read. -/
theorem performs_functionDeclaration (hexpression : Performs bound expression (run .expression))
    (hblock : Performs bound block (run .block)) (hbound : bound ≤ passes + 1) :
    Performs bound (functionDeclaration expression block passes)
      Routine.functionDeclaration.procedure := by
  refine performs_next.bind fun keyword => (performs_name _).bind fun declared => ?_
  refine (performs_expectOr _ _).bind fun _ => ?_
  refine (performs_commaList hexpression hbound).run.bind fun listed => ?_
  cases paramNames listed with
  | error e => exact performs_fail e
  | ok params => exact hblock.bind fun body => performs_pure _

theorem performs_countedLoop (hblock : Performs bound block (run .block)) :
    Performs bound (countedLoop block) Routine.countedLoop.procedure := by
  refine performs_next.bind fun keyword => performs_next.bind fun t => ?_
  cases t.kind with
  | number x =>
    dsimp only
    cases Number.count? x with
    | some n => exact hblock.bind fun body => performs_pure _
    | none => exact performs_fail _
  | _ => exact performs_fail _

/-- The keyword comes before the condition and the body. -/
theorem performs_conditionalLoop (hexpression : Performs bound expression (run .expression))
    (hblock : Performs bound block (run .block)) :
    Performs bound (conditionalLoop expression block) Routine.conditionalLoop.procedure := by
  refine performs_next.bind fun keyword => hexpression.bind fun condition => ?_
  exact hblock.bind fun body => performs_pure _

theorem performs_optionalSemicolon {p : Parser Stmt} {c : Procedure Stmt} (h : Performs bound p c) :
    Performs bound (optionalSemicolon p) (Procedure.optionalSemicolon c) :=
  h.bind fun s => (performs_skipIf _).bind fun _ => performs_pure s

/-- The first token decides which statement is parsed, and is not taken for that. -/
theorem performs_statement (hexpression : Performs bound expression (run .expression))
    (hblock : Performs bound block (run .block)) (hbound : bound ≤ passes + 1) :
    Performs bound (Parser.statement expression block passes) Routine.statement.procedure := by
  refine performs_peek.bind fun first => ?_
  have hfunction := (performs_functionDeclaration hexpression hblock hbound).run
  cases first.kind with
  | keyword word =>
    cases word with
    | letKw | constKw => exact (performs_declaration hexpression).run
    | fnKw => exact performs_optionalSemicolon hfunction
    | forKw => exact performs_optionalSemicolon (performs_countedLoop hblock).run
    | whileKw => exact performs_optionalSemicolon (performs_conditionalLoop hexpression hblock).run
  | _ => exact performs_optionalSemicolon (hexpression.bind fun e => performs_pure _)

end Statements

/-- By induction on the bound: statements hold others in blocks only. -/
theorem performs_statementWithin (bound : Nat) :
    Performs bound (statementWithin bound) Routine.statement.procedure := by
  induction bound with
  | zero => exact fun _ hlen => absurd hlen (Nat.not_lt_zero _)
  | succ bound ih =>
    exact performs_statement (performs_expressionWithin (bound + 1)).run
      (performs_block ih.run (Nat.le_succ bound)).run (Nat.le_refl _)

/-- Every parser does what its procedure does, on all lists that its bound is made for. -/
theorem Routine.performs_parser (bound : Nat) (r : Routine) :
    Performs (bound + 1) (r.parser bound) r.procedure := by
  have hself := (performs_expressionWithin bound).run
  have hexpression := (performs_expressionWithin (bound + 1)).run
  have hstatement := (performs_statementWithin (bound + 1)).run
  have hblock : Performs (bound + 1) (blockWithin bound) (run .block) :=
    (performs_block (performs_statementWithin bound).run (Nat.le_succ bound)).run
  have hle := Nat.le_refl bound
  cases r with
  | expression => exact performs_expressionWithin (bound + 1)
  | tier level => exact performs_chain hself hle level
  | unary => exact performs_unary hself hle
  | call => exact performs_call hself hle
  | primary => exact performs_primary hself
  | commaList => exact performs_commaList hexpression (Nat.le_refl _)
  | statement => exact performs_statementWithin (bound + 1)
  | declaration => exact performs_declaration hexpression
  | functionDeclaration => exact performs_functionDeclaration hexpression hblock (Nat.le_refl _)
  | countedLoop => exact performs_countedLoop hblock
  | conditionalLoop => exact performs_conditionalLoop hexpression hblock
  | block => exact (performs_block hstatement (Nat.le_succ _)).mono (Nat.le_succ _)
  | program => exact (performs_statementsUntil hstatement (Nat.le_succ _) []).run
  | loop l state =>
    cases l with
    | items => exact performs_items hexpression (Nat.le_refl _) state
    | calls => exact performs_callsFrom hself hle state
    | operators level =>
      exact performs_chainFrom (performs_chain hself hle level).run (Nat.le_refl _) state
    | statements inBlock => exact performs_statementsUntil hstatement (Nat.le_refl _) state

/-! ## Progress -/

variable {ts : List Token}

/-- A routine has one run on every list of tokens, and it gives the reply of the parser. It begins no
more passes than it takes tokens, or runs out of tokens with one more. -/
theorem Routine.runs_iff (r : Routine) (hlen : ts.length ≤ bound) :
    ∃ n, Spent false ts n (r.parser bound ts) ∧
      ∀ m reply, r.procedure.Runs ts m reply ↔ m = n ∧ reply = r.parser bound ts := by
  obtain ⟨n, hrun⟩ := r.performs_parser bound ts (Nat.lt_succ_of_le hlen)
  have hspent : Spent false ts n (r.parser bound ts) := by
    refine (hrun.spent r.handles_procedure).imp (fun hle => ?_) fun ⟨hreply, hle⟩ => ⟨hreply, ?_⟩
    · rw [Bool.toNat_false]
      omega
    · rw [Bool.toNat_false]
      omega
  refine ⟨n, hspent, fun m reply => ⟨fun h => h.unique hrun, ?_⟩⟩
  rintro ⟨rfl, rfl⟩
  exact hrun

/-- A list with the mark at the end of a text does not run out of tokens. -/
theorem marked_program (hmark : ∃ t ∈ ts, t.kind = .endOfFile) : Marked (program ts) := by
  obtain ⟨n, hrun⟩ := Routine.program.performs_parser ts.length ts (Nat.lt_succ_self _)
  exact hrun.marked Routine.program.handles_procedure (fun h => by cases h) hmark

/-- Parsing fails exactly if the parser of programs does, whatever it leaves. -/
theorem ofTokens_eq_error {e : SyntaxError} :
    Program.ofTokens ts = .error e ↔ ∃ rest, program ts = .error e rest := by
  rw [Program.ofTokens]
  cases program ts <;> simp [Reply.toExcept]

/-- If tokens with the mark at the end of a text form no program, then one of them is wrong. -/
theorem atToken_of_ofTokens {e : SyntaxError} (hmark : ∃ t ∈ ts, t.kind = .endOfFile)
    (h : Program.ofTokens ts = .error e) : e.AtToken := by
  obtain ⟨rest, hrest⟩ := ofTokens_eq_error.mp h
  have hmarked := marked_program hmark
  rw [hrest] at hmarked
  exact hmarked

/-- Every parser comes to an end and leaves a suffix of its tokens, whether it succeeds or fails, and
the parsers of expressions, statements and blocks take a token when they succeed. Every pass of a
loop takes a token, unless none is left where it begins: then it fails at once. So a list of tokens is
parsed, as a program or up to the first error, and the passes that begin, of all the loops together,
are no more than the tokens, or one more if the list runs out of tokens. A list with the mark at the
end of a text does not run out. -/
theorem parsing_progress (ts : List Token) :
    (∀ (r : Routine) (bound : Nat), ts.length ≤ bound →
      (r.parser bound ts).rest <:+ ts ∧
        (r.takes = true → ∀ a rest, r.parser bound ts = .ok a rest → rest.length < ts.length) ∧
        ∃ n, (n + (r.parser bound ts).rest.length ≤ ts.length ∨
            r.parser bound ts = .error .endOfInput [] ∧ n ≤ ts.length + 1) ∧
          ∀ m reply, r.procedure.Runs ts m reply ↔ m = n ∧ reply = r.parser bound ts) ∧
      (∀ (l : Loop) (state : l.State) (pass : Procedure (Turn l.State)) (n : Nat)
        (reply : Reply (Turn l.State)),
        l.pass? state ts.head? = some pass → pass.Runs ts n reply →
          reply.rest <:+ ts ∧
            (reply.rest.length < ts.length ∨
              ts = [] ∧ n = 0 ∧ reply = .error .endOfInput [])) ∧
      ∃ n ≤ ts.length + 1,
        (program ts ≠ .error .endOfInput [] → n ≤ ts.length) ∧
        ((∃ t ∈ ts, t.kind = .endOfFile) → n ≤ ts.length) ∧
        ∀ m reply, Routine.program.procedure.Runs ts m reply ↔ m = n ∧ reply = program ts := by
  refine ⟨fun r bound hlen => ?_, fun l state pass n reply hpass hrun => ?_, ?_⟩
  · obtain ⟨n, hrun⟩ := r.performs_parser bound ts (Nat.lt_succ_of_le hlen)
    refine ⟨hrun.suffix, fun htakes a rest hreply => ?_, r.runs_iff hlen⟩
    have hhandles := r.handles_procedure.mono fun _ => trivial
    rw [htakes] at hhandles
    rw [hreply] at hrun
    exact hrun.length_lt hhandles
  · refine ⟨hrun.suffix, ?_⟩
    rcases hrun.spent (l.handles_pass hpass) with hle | ⟨hreply, hle⟩
    · rw [Bool.toNat_true] at hle
      exact .inl (by omega)
    · rw [Bool.toNat_true] at hle
      rw [hreply, Reply.rest]
      cases ts with
      | nil => exact .inr ⟨rfl, by rw [List.length_nil] at hle; omega, rfl⟩
      | cons t ts => exact .inl (Nat.succ_pos _)
  · obtain ⟨n, hspent, hruns⟩ := Routine.program.runs_iff (Nat.le_refl ts.length)
    have hout (hreply : program ts ≠ .error .endOfInput []) : n ≤ ts.length := by
      rcases hspent with hle | ⟨herror, -⟩
      · omega
      · exact absurd herror hreply
    refine ⟨n, ?_, hout, fun hmark => hout fun hreply => ?_, hruns⟩
    · rcases hspent with hle | ⟨-, hle⟩
      · omega
      · exact hle
    · have hmarked := marked_program hmark
      rw [hreply] at hmarked
      exact hmarked _ rfl

/-! ### A pass without a token -/

/-- Without tokens a routine that must take one fails at once. -/
theorem Routine.runs_nil {r : Routine} (htakes : r.takes = true) :
    r.procedure.Runs [] 0 (.error .endOfInput []) := by
  obtain ⟨n, hrun⟩ := r.performs_parser 0 [] (Nat.lt_succ_self 0)
  have hhandles := r.handles_procedure.mono fun _ => trivial
  rw [htakes] at hhandles
  obtain ⟨rfl, hreply⟩ := hrun.nil hhandles
  rw [hreply] at hrun
  exact hrun

/-- The tokens of `x (`, without a mark after them. -/
def bareCall : List Token :=
  [⟨.identifier "x", ⟨1, 1⟩, ⟨0, 1⟩⟩, ⟨.symbol .leftParen, ⟨1, 3⟩, ⟨2, 3⟩⟩]

/-- The arguments after `x (` are looked for in a pass that finds no token. -/
theorem runs_tier_bareCall (level : Nat) :
    (Routine.tier level).procedure.Runs bareCall 2 (.error .endOfInput []) := by
  have hitem : (itemPass []).Runs [] 0 (.error .endOfInput []) :=
    (Routine.runs_nil rfl).run.bind_error
  have hitems : (Routine.loop .items []).procedure.Runs [] 1 (.error .endOfInput []) :=
    .look (.pass hitem.bind_error)
  have hlist : Routine.commaList.procedure.Runs [] 1 (.error .endOfInput []) := .look hitems.run
  have hcalls (callee : Expr) : (Routine.loop .calls callee).procedure.Runs
      [⟨.symbol .leftParen, ⟨1, 3⟩, ⟨2, 3⟩⟩] 2 (.error .endOfInput []) :=
    .look (.pass (.take hlist.run.bind_error.bind_error))
  have hname : Routine.primary.procedure.Runs bareCall 0 (.ok (.identifier "x" ⟨1, 1⟩) _) :=
    .take .answer
  have hcall : Routine.call.procedure.Runs bareCall 2 (.error .endOfInput []) :=
    hname.run.bind (f := fun callee => run (.loop .calls callee)) (hcalls _).run
  have hunary : Routine.unary.procedure.Runs bareCall 2 (.error .endOfInput []) := .look hcall.run
  induction level with
  | zero => exact hunary.run
  | succ level ih => exact ih.run.bind_error

/-- The tokens of the empty text: the mark at its end. -/
def emptyText : List Token :=
  [⟨.endOfFile, ⟨1, 1⟩, ⟨0, 0⟩⟩]

/-- On the tokens of `x (` three passes begin, one of each of the loops of statements, calls and
arguments. The last one has no token left to take. And the parser of programs, alone among the
parsers of statements, succeeds on the empty text without taking a token. -/
theorem bareCall_unpaid_pass :
    Routine.program.procedure.Runs bareCall 3 (program bareCall) ∧ bareCall.length = 2 ∧
      (∃ pass, Loop.items.pass? [] ([] : List Token).head? = some pass ∧
        pass.Runs [] 0 (.error .endOfInput [])) ∧
      program emptyText = .ok [] emptyText := by
  refine ⟨?_, rfl, ⟨itemPass [], rfl, (Routine.runs_nil rfl).run.bind_error⟩, rfl⟩
  have hexpression : Routine.expression.procedure.Runs bareCall 2 (.error .endOfInput []) :=
    (runs_tier_bareCall _).run.bind_error
  have hstatement : Routine.statement.procedure.Runs bareCall 2 (.error .endOfInput []) :=
    .look hexpression.run.bind_error.bind_error
  exact Runs.run (.look (.pass hstatement.run.bind_error.bind_error))

end Scriptlet.Parser
