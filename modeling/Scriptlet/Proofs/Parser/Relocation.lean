import Scriptlet.Proofs.Parser.Progress
import Scriptlet.Proofs.Syntax.Relocation

/-! # Parsing tokens at other positions

Parsers look at the kinds of tokens and copy their positions. If tokens are moved to other
positions, then the tree that is parsed from them has its positions moved in the same way, and so
has an error (`ofTokens_relocate`). `Moves` says so of the steps of a procedure, and `Runs.moved`
carries it along a run, over all the routines that are called.
-/

namespace Scriptlet

/-- A change of tokens that keeps their kinds and changes their positions by a rule. -/
structure Token.Relocation where
  pos : Position → Position
  token : Token → Token
  kind_token : ∀ t, (token t).kind = t.kind
  pos_token : ∀ t, (token t).pos = pos t.pos

/-- The error at another position. That of a list which ends too early has no token to move with. -/
def SyntaxError.relocate (f : Position → Position) (e : SyntaxError) : SyntaxError :=
  match e.cause with
  | .unexpected .moreInput _ => e
  | _ => { e with pos := f e.pos }

/-- Why tokens do not form a program does not depend on where they stand. -/
theorem SyntaxError.cause_relocate (f : Position → Position) (e : SyntaxError) :
    (e.relocate f).cause = e.cause := by
  rw [SyntaxError.relocate]
  split <;> rfl

/-- An error at a token moves with the token. -/
theorem SyntaxError.AtToken.relocate_eq {e : SyntaxError} (h : e.AtToken)
    (f : Position → Position) : e.relocate f = ⟨e.cause, f e.pos⟩ := by
  rw [SyntaxError.relocate]
  split
  · next found hcause => exact absurd hcause (h found)
  · rfl

/-- The answer with its value changed by `g`, and its error and the tokens that are left moved. -/
def Reply.relocate {α : Type} (τ : Token.Relocation) (g : α → α) : Reply α → Reply α
  | .ok a rest => .ok (g a) (rest.map τ.token)
  | .error e rest => .error (e.relocate τ.pos) (rest.map τ.token)

namespace Parser

/-- What a loop has built, with all its positions changed. -/
def Loop.relocate (f : Position → Position) : (l : Loop) → l.State → l.State
  | items, before => List.map (Expr.relocate f) before
  | calls, e | operators _, e => Expr.relocate f e
  | statements _, before => Program.relocate f before

/-- The result of a routine, with all its positions changed. -/
def Routine.relocate (f : Position → Position) : (r : Routine) → r.Result → r.Result
  | expression | tier _ | unary | call | primary => Expr.relocate f
  | commaList => List.map (Expr.relocate f)
  | statement | declaration | functionDeclaration | countedLoop | conditionalLoop => Stmt.relocate f
  | block | program => Program.relocate f
  | loop l _ => l.relocate f

/-- Whether a routine is a loop, which has something built when it is called. -/
def Routine.isLoop : Routine → Bool
  | loop _ _ => true
  | _ => false

variable {τ : Token.Relocation} {α β : Type} {g : α → α} {g' : β → β}

namespace Procedure

/-- The second procedure does on the moved tokens what the first does on the tokens, with all the
positions moved. -/
inductive Moves (τ : Token.Relocation) {α : Type} (g : α → α) : Procedure α → Procedure α → Prop
  | answer {a a' : α} : a' = g a → Moves τ g (.answer a) (.answer a')
  | fail {e e' : SyntaxError} : e' = e.relocate τ.pos → Moves τ g (.fail e) (.fail e')
  | take {next next' : Token → Procedure α} :
      (∀ t, Moves τ g (next t) (next' (τ.token t))) → Moves τ g (.take next) (.take next')
  | look {next next' : Option Token → Procedure α} :
      (∀ first, Moves τ g (next first) (next' (first.map τ.token))) →
      Moves τ g (.look next) (.look next')
  | pass {body body' : Procedure α} : Moves τ g body body' → Moves τ g (.pass body) (.pass body')
  | call {r : Routine} {next next' : r.Result → Procedure α} :
      r.isLoop = false → (∀ a, Moves τ g (next a) (next' (r.relocate τ.pos a))) →
      Moves τ g (.call r next) (.call r next')
  | callLoop {l : Loop} {state : l.State} {next next' : l.State → Procedure α} :
      (∀ a, Moves τ g (next a) (next' (l.relocate τ.pos a))) →
      Moves τ g (.call (.loop l state) next) (.call (.loop l (l.relocate τ.pos state)) next')

/-! ## Rules -/

/-- Procedures in turn move together, if what the second makes of the result moves with the result.
-/
theorem Moves.bind {c c' : Procedure α} {f f' : α → Procedure β} (h : Moves τ g c c')
    (hf : ∀ a, Moves τ g' (f a) (f' (g a))) : Moves τ g' (c >>= f) (c' >>= f') := by
  induction h with
  | answer ha =>
    rw [ha]
    exact hf _
  | fail he => exact .fail he
  | take _ ih => exact .take ih
  | look _ ih => exact .look ih
  | pass _ ih => exact .pass ih
  | call hr _ ih => exact .call hr ih
  | callLoop _ ih => exact .callLoop ih

/-- A routine gives its result with the positions moved. -/
theorem moves_run {r : Routine} (hr : r.isLoop = false) :
    Moves τ (r.relocate τ.pos) (run r) (run r) :=
  .call hr fun _ => .answer rfl

/-- A loop goes on from what has been built, with the positions moved. -/
theorem moves_runLoop (l : Loop) (state : l.State) :
    Moves τ (l.relocate τ.pos) (run (.loop l state)) (run (.loop l (l.relocate τ.pos state))) :=
  .callLoop fun _ => .answer rfl

/-- The token that is taken is the relocated one. -/
theorem moves_next : Moves τ τ.token next next :=
  .take fun _ => .answer rfl

theorem moves_peek : Moves τ τ.token peek peek := by
  refine .look fun first => ?_
  cases first with
  | none => exact .fail rfl
  | some t => exact .answer rfl

/-- A test whose answer does not depend on positions. -/
theorem moves_ite {p : Prop} [Decidable p] {c c' d d' : Procedure α} (hc : Moves τ g c c')
    (hd : Moves τ g d d') : Moves τ g (if p then c else d) (if p then c' else d') := by
  split
  · exact hc
  · exact hd

/-- The error of an unexpected token moves with the token. -/
theorem moves_unexpected {expected : Expected} (h : expected ≠ .moreInput) (t : Token) :
    Moves τ g (.fail (.unexpected expected t)) (.fail (.unexpected expected (τ.token t))) := by
  refine .fail ?_
  rw [(SyntaxError.atToken_unexpected h t).relocate_eq, SyntaxError.unexpected, τ.kind_token,
    τ.pos_token]
  rfl

/-- An error with a cause of its own moves with its position. -/
theorem moves_refused {cause : SyntaxError.Cause} {p p' : Position} (hp : p' = τ.pos p)
    (h : ∀ expected found, cause ≠ .unexpected expected found) :
    Moves τ g (.fail ⟨cause, p⟩) (.fail ⟨cause, p'⟩) := by
  have htoken : SyntaxError.AtToken ⟨cause, p⟩ := h .moreInput
  exact .fail (by rw [htoken.relocate_eq, hp])

end Procedure

open Procedure

/-- A relocated token is the same symbol. -/
@[simp] theorem isSymbol_token (s : Symbol) (t : Token) :
    isSymbol s (τ.token t) = isSymbol s t := by
  rw [isSymbol, isSymbol, τ.kind_token]

theorem any_isSymbol_map (s : Symbol) (first : Option Token) :
    (first.map τ.token).any (isSymbol s) = first.any (isSymbol s) := by
  cases first with
  | none => rfl
  | some t => exact isSymbol_token s t

namespace Procedure

/-- Whether a symbol is skipped does not depend on where it stands. -/
theorem moves_skipIf (s : Symbol) : Moves τ id (skipIf s) (skipIf s) := by
  refine .look fun first => ?_
  rw [any_isSymbol_map]
  exact moves_ite (.take fun _ => .answer rfl) (.answer rfl)

/-- A refused token gives the error at its new position, if the error moves with the token. -/
theorem moves_expectOr {s : Symbol} {wrong : Token → SyntaxError}
    (hwrong : ∀ t, Moves τ (id : Unit → Unit) (.fail (wrong t)) (.fail (wrong (τ.token t)))) :
    Moves τ id (expectOr s wrong) (expectOr s wrong) := by
  refine moves_next.bind fun t => ?_
  rw [isSymbol_token]
  exact moves_ite (.answer rfl) (hwrong t)

theorem moves_expect (s : Symbol) : Moves τ id (expect s) (expect s) :=
  moves_expectOr (moves_unexpected fun h => by cases h)

/-- A name is the same elsewhere, and a token that is none is refused where it stands. -/
theorem moves_name {wrong : Token.Kind → SyntaxError.Cause}
    (hwrong : ∀ kind expected found, wrong kind ≠ .unexpected expected found) :
    Moves τ id (name wrong) (name wrong) := by
  refine moves_next.bind fun t => ?_
  rw [τ.kind_token]
  split
  · exact .answer rfl
  · exact moves_refused (τ.pos_token t) (hwrong _)

theorem moves_optionalSemicolon {c : Procedure Stmt} (h : Moves τ (Stmt.relocate τ.pos) c c) :
    Moves τ (Stmt.relocate τ.pos) (optionalSemicolon c) (optionalSemicolon c) :=
  h.bind fun _ => (moves_skipIf _).bind fun _ => .answer rfl

end Procedure

/-! ## Loops -/

/-- What a loop has built after a pass, with all its positions changed. -/
def Turn.relocate (f : Position → Position) (l : Loop) : Turn l.State → Turn l.State
  | .again state => .again (l.relocate f state)
  | .last state => .last (l.relocate f state)

/-- The items read so far are relocated, and so is the one that the pass adds. -/
theorem moves_itemPass (before : List Expr) :
    Moves τ (Turn.relocate τ.pos .items) (itemPass before)
      (itemPass (before.map (Expr.relocate τ.pos))) := by
  refine (moves_run rfl).bind fun item => moves_next.bind fun t => ?_
  rw [isSymbol_token, isSymbol_token]
  refine moves_ite (.answer rfl) (moves_ite (.answer rfl) ?_)
  exact moves_unexpected (fun h => by cases h) t

/-- A call stands where its callee does, on both sides. -/
theorem moves_callPass (callee : Expr) :
    Moves τ (Turn.relocate τ.pos .calls) (callPass callee) (callPass (callee.relocate τ.pos)) := by
  refine moves_next.bind fun _ => (moves_run rfl).bind fun arguments => .answer ?_
  rw [Turn.relocate, Loop.relocate, Expr.relocate, Expr.relocateAll_eq_map, Expr.pos_relocate]
  rfl

/-- An operation stands where its left operand does, on both sides. -/
theorem moves_operatorPass (level : Nat) (op : Operator) (left : Expr) :
    Moves τ (Turn.relocate τ.pos (.operators level)) (operatorPass level op left)
      (operatorPass level op (left.relocate τ.pos)) := by
  refine moves_next.bind fun _ => (moves_run rfl).bind fun right => .answer ?_
  rw [Turn.relocate, Loop.relocate, Expr.relocate, Expr.pos_relocate]
  rfl

theorem moves_statementPass (inBlock : Bool) (before : List Stmt) :
    Moves τ (Turn.relocate τ.pos (.statements inBlock)) (statementPass before)
      (statementPass (Program.relocate τ.pos before)) :=
  (moves_run rfl).bind fun _ => .answer rfl

/-- Whether a loop makes a pass does not depend on positions. -/
theorem Loop.moves_pass? (l : Loop) (state : l.State) (first : Option Token) :
    (l.pass? state first = none ∧ l.pass? (l.relocate τ.pos state) (first.map τ.token) = none) ∨
      ∃ pass pass', l.pass? state first = some pass ∧
        l.pass? (l.relocate τ.pos state) (first.map τ.token) = some pass' ∧
        Moves τ (Turn.relocate τ.pos l) pass pass' := by
  cases l with
  | items => exact .inr ⟨_, _, rfl, rfl, moves_itemPass state⟩
  | calls =>
    rw [Loop.pass?, Loop.pass?, any_isSymbol_map]
    split
    · exact .inr ⟨_, _, rfl, rfl, moves_callPass state⟩
    · exact .inl ⟨rfl, rfl⟩
  | operators level =>
    have hop : (first.map τ.token).bind (·.kind.operator?) = first.bind (·.kind.operator?) := by
      cases first with
      | none => rfl
      | some t => exact congrArg Token.Kind.operator? (τ.kind_token t)
    rw [Loop.pass?, Loop.pass?, hop]
    cases first.bind (·.kind.operator?) with
    | none => exact .inl ⟨rfl, rfl⟩
    | some op =>
      by_cases hlevel : op.tier.level = level + 1
      · exact .inr ⟨_, _, if_pos hlevel, if_pos hlevel, moves_operatorPass level op state⟩
      · exact .inl ⟨if_neg hlevel, if_neg hlevel⟩
  | statements inBlock =>
    have hends : (atEnd (first.map τ.token).toList || (first.map τ.token).any (closes inBlock)) =
        (atEnd first.toList || first.any (closes inBlock)) := by
      cases first with
      | none => rfl
      | some t => simp [atEnd, closes, τ.kind_token]
    rw [Loop.pass?, Loop.pass?, hends]
    split
    · exact .inl ⟨rfl, rfl⟩
    · exact .inr ⟨_, _, rfl, rfl, moves_statementPass inBlock state⟩

/-- A loop ends with the list that it holds turned around, or with the tree that it holds. -/
theorem Loop.finish_relocate (f : Position → Position) (l : Loop) (state : l.State) :
    l.finish (l.relocate f state) = l.relocate f (l.finish state) := by
  cases l with
  | items | statements _ => exact List.map_reverse.symm
  | calls | operators _ => rfl

/-- A loop looks at the kind of the next token only to choose its pass. -/
theorem Loop.moves_procedure (l : Loop) (state : l.State) :
    Moves τ (l.relocate τ.pos) (Routine.loop l state).procedure
      (Routine.loop l (l.relocate τ.pos state)).procedure := by
  refine .look fun first => ?_
  rcases l.moves_pass? (τ := τ) state first with ⟨hnone, hnone'⟩ | ⟨pass, pass', hpass, hpass', h⟩
  · rw [hnone, hnone']
    exact .answer (l.finish_relocate τ.pos state)
  · rw [hpass, hpass']
    refine .pass (h.bind fun turn => ?_)
    cases turn with
    | again state => exact moves_runLoop l state
    | last state => exact .answer (l.finish_relocate τ.pos state)

/-! ## Routines -/

/-- The names in a list of expressions do not move, and the error of one that is no name does. -/
theorem paramNames_relocate (es : List Expr) :
    paramNames (es.map (Expr.relocate τ.pos)) =
      (paramNames es).mapError (SyntaxError.relocate τ.pos) := by
  induction es with
  | nil => rfl
  | cons e es ih =>
    cases e with
    | identifier x p =>
      rw [List.map_cons, Expr.relocate, paramNames, paramNames, ih]
      cases paramNames es <;> rfl
    | _ => rfl

/-- Outside of loops, a routine carries no tree with it; both sides perform the same procedure. -/
theorem Routine.moves_procedure {r : Routine} (hr : r.isLoop = false) :
    Moves τ (r.relocate τ.pos) r.procedure r.procedure := by
  cases r with
  | expression =>
    refine (moves_run rfl).bind fun target => (moves_skipIf _).bind fun taken => ?_
    refine moves_ite ((moves_run rfl).bind fun value => .answer ?_) (.answer rfl)
    exact congrArg (Expr.assign _ _) (Expr.pos_relocate τ.pos target)
  | tier level =>
    cases level with
    | zero => exact moves_run (r := .unary) rfl
    | succ level => exact (moves_run rfl).bind fun left => moves_runLoop (.operators level) left
  | unary =>
    refine .look fun first => ?_
    rw [any_isSymbol_map]
    refine moves_ite (moves_next.bind fun t => ?_) (moves_run (r := .call) rfl)
    exact (moves_run rfl).bind fun operand => .answer (congrArg (Expr.not _) (τ.pos_token t))
  | call => exact (moves_run rfl).bind fun callee => moves_runLoop .calls callee
  | primary =>
    refine moves_next.bind fun t => ?_
    rw [τ.kind_token, τ.pos_token]
    split
    · exact .answer rfl
    · exact .answer rfl
    · exact (moves_run rfl).bind fun e => (moves_expect _).bind fun _ => .answer rfl
    · exact moves_unexpected (fun h => by cases h) t
  | commaList =>
    refine (moves_skipIf _).bind fun taken => ?_
    exact moves_ite (.answer rfl) (moves_runLoop .items [])
  | statement =>
    refine moves_peek.bind fun first => ?_
    rw [τ.kind_token]
    split
    · exact moves_run (r := .declaration) rfl
    · exact moves_run (r := .declaration) rfl
    · exact moves_optionalSemicolon (moves_run (r := .functionDeclaration) rfl)
    · exact moves_optionalSemicolon (moves_run (r := .countedLoop) rfl)
    · exact moves_optionalSemicolon (moves_run (r := .conditionalLoop) rfl)
    · exact moves_optionalSemicolon ((moves_run rfl).bind fun e => .answer rfl)
  | declaration =>
    refine moves_next.bind fun keyword => ?_
    rw [τ.kind_token, τ.pos_token]
    refine (moves_name fun _ _ _ h => by cases h).bind fun x => ?_
    refine (moves_skipIf _).bind fun ended => moves_ite (moves_ite ?_ (.answer rfl)) ?_
    · exact moves_refused rfl fun _ _ h => by cases h
    · refine (moves_expect _).bind fun _ => (moves_run rfl).bind fun value => ?_
      refine Moves.bind (moves_expectOr fun t => ?_) fun _ => .answer rfl
      rw [τ.kind_token]
      exact moves_refused (τ.pos_token t) fun _ _ h => by cases h
  | functionDeclaration =>
    refine moves_next.bind fun keyword => ?_
    refine (moves_name fun _ _ _ h => by cases h).bind fun x => ?_
    refine Moves.bind (moves_expectOr fun t => ?_) fun _ => (moves_run rfl).bind fun listed => ?_
    · rw [τ.kind_token]
      exact moves_refused (τ.pos_token t) fun _ _ h => by cases h
    · rw [Routine.relocate, paramNames_relocate, τ.pos_token]
      cases paramNames listed with
      | error e => exact .fail rfl
      | ok params =>
        refine (moves_run rfl).bind fun body => .answer ?_
        rw [Routine.relocate, Stmt.relocate, Stmt.relocateAll_eq_map]
        rfl
  | countedLoop =>
    refine moves_next.bind fun keyword => moves_next.bind fun t => ?_
    have hfail : Moves τ (Stmt.relocate τ.pos) (.fail (.unexpected .iterationCount t))
        (.fail (.unexpected .iterationCount (τ.token t))) :=
      moves_unexpected (fun h => by cases h) t
    rw [τ.kind_token, τ.pos_token, τ.pos_token]
    split
    · split
      · refine (moves_run rfl).bind fun body => .answer ?_
        rw [Routine.relocate, Stmt.relocate, Stmt.relocateAll_eq_map]
        rfl
      · exact moves_refused rfl fun _ _ h => by cases h
    · exact hfail
  | conditionalLoop =>
    refine moves_next.bind fun keyword => (moves_run rfl).bind fun condition => ?_
    refine (moves_run rfl).bind fun body => .answer ?_
    simp only [Routine.relocate, Stmt.relocate, Stmt.relocateAll_eq_map, τ.pos_token]
  | block =>
    refine (moves_expect _).bind fun _ => ?_
    refine (moves_runLoop (.statements true) []).bind fun body => ?_
    exact (moves_expect _).bind fun _ => .answer rfl
  | program => exact moves_runLoop (.statements false) []
  | loop l state => cases hr

/-! ## Runs -/

/-- Moved tokens give the moved reply, in as many passes. -/
theorem Procedure.Runs.moved {c c' : Procedure α} {ts : List Token} {n : Nat} {reply : Reply α}
    (h : c.Runs ts n reply) (hc : Moves τ g c c') :
    c'.Runs (ts.map τ.token) n (reply.relocate τ g) := by
  induction h with
  | answer =>
    cases hc with
    | answer ha =>
      rw [ha]
      exact .answer
  | fail =>
    cases hc with
    | fail he =>
      rw [he]
      exact .fail
  | take _ ih =>
    cases hc with
    | take hnext => exact .take (ih (hnext _))
  | takeNone =>
    cases hc with
    | take hnext => exact .takeNone
  | look _ ih =>
    cases hc with
    | look hnext =>
      refine .look ?_
      rw [List.head?_map]
      exact ih (hnext _)
  | pass _ ih =>
    cases hc with
    | pass hbody => exact .pass (ih hbody)
  | call _ _ ihcallee ih =>
    cases hc with
    | call hr hnext => exact .call (ihcallee (Routine.moves_procedure hr)) (ih (hnext _))
    | callLoop hnext => exact .call (ihcallee (Loop.moves_procedure _ _)) (ih (hnext _))
  | callFails _ ih =>
    cases hc with
    | call hr hnext => exact .callFails (ih (Routine.moves_procedure hr))
    | callLoop hnext => exact .callFails (ih (Loop.moves_procedure _ _))

/-- Tokens at other positions form the same program at other positions, or the same error. -/
theorem ofTokens_relocate (τ : Token.Relocation) (ts : List Token) :
    Program.ofTokens (ts.map τ.token) =
      match Program.ofTokens ts with
      | .ok p => .ok (p.relocate τ.pos)
      | .error e => .error (e.relocate τ.pos) := by
  have hprogram : program (ts.map τ.token) = (program ts).relocate τ (Program.relocate τ.pos) := by
    obtain ⟨n, hrun⟩ := Routine.program.performs_parser ts.length ts (Nat.lt_succ_self _)
    obtain ⟨m, hmoved⟩ := Routine.program.performs_parser _ (ts.map τ.token) (Nat.lt_succ_self _)
    exact (hmoved.unique (hrun.moved (Routine.moves_procedure rfl))).2
  rw [Program.ofTokens, Program.ofTokens, hprogram]
  cases program ts <;> rfl

end Parser

end Scriptlet
