import Scriptlet.Syntax.Parser.Statement

/-! # Parsers as procedures that call one another

The parsers are given bounds on their loops and on how deep they call one another. Here they are
written down without bounds: a procedure takes tokens, looks at the next one, makes passes of loops
and calls routines, each of which has a procedure of its own. `Procedure.Runs` says what a procedure
does on a list of tokens, if it comes to an end, and counts the passes that are begun on the way, by
the routines it calls as well.

What holds of the parsers one by one is shown of their procedures, which have no bounds, and carried
over to the parsers along the runs.
-/

namespace Scriptlet.Parser

/-! ## Loops and routines -/

/-- The loops of the parsers. -/
inductive Loop where
  /-- The items of a list, up to its closing parenthesis. -/
  | items
  /-- The argument lists after what is called. -/
  | calls
  /-- The operators of the level above the given one, each with its right operand. -/
  | operators (level : Nat)
  /-- Statements, up to the end or, in a block, up to a closing brace. -/
  | statements (inBlock : Bool)

/-- What a loop has built so far. -/
abbrev Loop.State : Loop → Type
  | items => List Expr
  | calls | operators _ => Expr
  | statements _ => List Stmt

/-- Whether a token ends a loop of statements that stands in a block, or does not. -/
def closes (inBlock : Bool) (t : Token) : Bool :=
  inBlock && isSymbol .rightBrace t

/-- What a loop gives in the end. While it goes on, lists are held last one first. -/
def Loop.finish : (l : Loop) → l.State → l.State
  | items, before => List.reverse before
  | calls, e | operators _, e => e
  | statements _, before => List.reverse before

/-- The parsers, and the loops in them with what they have built so far. -/
inductive Routine where
  | expression
  | tier (level : Nat)
  | unary
  | call
  | primary
  | commaList
  | statement
  | declaration
  | functionDeclaration
  | countedLoop
  | conditionalLoop
  | block
  | program
  | loop (l : Loop) (state : l.State)

/-- What a routine gives if it succeeds. -/
abbrev Routine.Result : Routine → Type
  | expression | tier _ | unary | call | primary => Expr
  | commaList => List Expr
  | statement | declaration | functionDeclaration | countedLoop | conditionalLoop => Stmt
  | block | program => List Stmt
  | loop l _ => l.State

/-- The parser of a routine, for lists of at most `bound` tokens. -/
def Routine.parser (bound : Nat) : (r : Routine) → Parser r.Result
  | expression => expressionWithin (bound + 1)
  | tier level => chain (expressionWithin bound) bound level
  | unary => Parser.unary (expressionWithin bound) bound
  | call => Parser.call (expressionWithin bound) bound
  | primary => Parser.primary (expressionWithin bound)
  | commaList => Parser.commaList (expressionWithin (bound + 1)) bound
  | statement => statementWithin (bound + 1)
  | declaration => Parser.declaration (expressionWithin (bound + 1))
  | functionDeclaration =>
    Parser.functionDeclaration (expressionWithin (bound + 1)) (blockWithin bound) bound
  | countedLoop => Parser.countedLoop (blockWithin bound)
  | conditionalLoop => Parser.conditionalLoop (expressionWithin (bound + 1)) (blockWithin bound)
  | block => blockWithin (bound + 1)
  | program => programWithin (bound + 1)
  | loop .items before => items (expressionWithin (bound + 1)) bound before
  | loop .calls callee => callsFrom (expressionWithin bound) bound callee
  | loop (.operators level) left =>
    chainFrom (level + 1) (chain (expressionWithin bound) bound level) bound left
  | loop (.statements inBlock) before =>
    statementsUntil (closes inBlock) (statementWithin (bound + 1)) bound before

/-! ## Procedures -/

/-- What a routine does, step by step. A pass of a loop is marked where it begins. -/
inductive Procedure (α : Type) where
  | answer (a : α)
  | fail (e : SyntaxError)
  /-- Takes the next token, or fails if there is none. -/
  | take (next : Token → Procedure α)
  /-- Looks at the next token, if there is one. -/
  | look (next : Option Token → Procedure α)
  | pass (body : Procedure α)
  | call (r : Routine) (next : r.Result → Procedure α)

namespace Procedure

variable {α β : Type}

/-- Goes on with another procedure, chosen by the answer of the first. -/
protected def bind : Procedure α → (α → Procedure β) → Procedure β
  | answer a, f => f a
  | fail e, _ => fail e
  | take next, f => take fun t => (next t).bind f
  | look next, f => look fun t => (next t).bind f
  | pass body, f => pass (body.bind f)
  | call r next, f => call r fun a => (next a).bind f

instance : Monad Procedure where
  pure := answer
  bind := Procedure.bind

theorem bind_assoc {γ : Type} (c : Procedure α) (f : α → Procedure β) (g : β → Procedure γ) :
    (c >>= f) >>= g = c >>= fun a => f a >>= g := by
  induction c with
  | answer | fail => rfl
  | take next ih => exact congrArg take (funext ih)
  | look next ih => exact congrArg look (funext ih)
  | pass body ih => exact congrArg pass ih
  | call r next ih => exact congrArg (call r) (funext ih)

/-- Calls a routine and gives what it gives. -/
def run (r : Routine) : Procedure r.Result :=
  call r answer

/-- Takes the next token. -/
def next : Procedure Token :=
  take answer

/-- Looks at the next token, which must be there. -/
def peek : Procedure Token :=
  look fun
    | some t => answer t
    | none => fail .endOfInput

/-- Whether the next token is the given symbol, which is taken if so. -/
def skipIf (s : Symbol) : Procedure Bool :=
  look fun t => if t.any (isSymbol s) then take fun _ => answer true else answer false

/-- Takes the next token, which must be the given symbol; `wrong` is the error of another one. -/
def expectOr (s : Symbol) (wrong : Token → SyntaxError) : Procedure Unit := do
  let t ← next
  if isSymbol s t then pure () else fail (wrong t)

/-- Takes the next token, which must be the given symbol. -/
def expect (s : Symbol) : Procedure Unit :=
  expectOr s (.unexpected (.symbol s))

/-- Takes the next token, which must be a name; `wrong` is the cause of the error of another one. -/
def name (wrong : Token.Kind → SyntaxError.Cause) : Procedure String := do
  let t ← next
  match t.kind with
  | .identifier s => pure s
  | found => fail ⟨wrong found, t.pos⟩

/-- Takes a semicolon that follows a statement. -/
def optionalSemicolon (statement : Procedure Stmt) : Procedure Stmt := do
  let s ← statement
  let _ ← skipIf .semicolon
  pure s

end Procedure

open Procedure (run)

/-! ## What each routine does -/

/-- What a loop has built after a pass, and whether it goes on. -/
inductive Turn (σ : Type) where
  | again (state : σ)
  | last (state : σ)

/-- One more item of a list, and the comma or parenthesis after it. -/
def itemPass (before : List Expr) : Procedure (Turn (List Expr)) := do
  let item ← run .expression
  let t ← Procedure.next
  if isSymbol .comma t then pure (.again (item :: before))
  else if isSymbol .rightParen t then pure (.last (item :: before))
  else .fail (.unexpected .commaOrClose t)

/-- One more argument list. -/
def callPass (callee : Expr) : Procedure (Turn Expr) := do
  let _ ← Procedure.next
  let arguments ← run .commaList
  pure (.again (.call callee arguments callee.pos))

/-- One more operator and its right operand. -/
def operatorPass (level : Nat) (op : Operator) (left : Expr) : Procedure (Turn Expr) := do
  let _ ← Procedure.next
  let right ← run (.tier level)
  pure (.again (.binary op left right left.pos))

/-- One more statement. -/
def statementPass (before : List Stmt) : Procedure (Turn (List Stmt)) := do
  let s ← run .statement
  pure (.again (s :: before))

/-- The pass that a loop makes if the given token comes next, unless it is at its end. -/
def Loop.pass? : (l : Loop) → l.State → Option Token → Option (Procedure (Turn l.State))
  | items, before, _ => some (itemPass before)
  | calls, callee, first =>
    if first.any (isSymbol .leftParen) then some (callPass callee) else none
  | operators level, left, first =>
    match first.bind (·.kind.operator?) with
    | some op => if op.tier.level = level + 1 then some (operatorPass level op left) else none
    | none => none
  | statements inBlock, before, first =>
    if atEnd first.toList || first.any (closes inBlock) then none else some (statementPass before)

/-- Goes on with a loop after a pass. -/
def Loop.resume (l : Loop) : Turn l.State → Procedure l.State
  | .again state => run (.loop l state)
  | .last state => pure (l.finish state)

/-- Makes passes as long as there are any to make. -/
def Loop.procedure (l : Loop) (state : l.State) : Procedure l.State :=
  .look fun first =>
    match l.pass? state first with
    | some pass => .pass (pass >>= l.resume)
    | none => pure (l.finish state)

/-- What a routine does. -/
def Routine.procedure : (r : Routine) → Procedure r.Result
  | expression => do
    let target ← run (.tier Tier.logical.level)
    if ← Procedure.skipIf .assign then
      let value ← run .expression
      pure (.assign target value (Expr.pos target))
    else pure target
  | tier 0 => run .unary
  | tier (level + 1) => do
    let left ← run (.tier level)
    run (.loop (.operators level) left)
  | unary =>
    .look fun first =>
      if first.any (isSymbol .not) then do
        let t ← Procedure.next
        let operand ← run .unary
        pure (.not operand t.pos)
      else run .call
  | call => do
    let e ← run .primary
    run (.loop .calls e)
  | primary => do
    let t ← Procedure.next
    match t.kind with
    | .identifier name => pure (.identifier name t.pos)
    | .number x => pure (.number x t.pos)
    | .symbol .leftParen => do
      let e ← run .expression
      Procedure.expect .rightParen
      pure e
    | _ => .fail (.unexpected .expression t)
  | commaList => do
    if ← Procedure.skipIf .rightParen then pure [] else run (.loop .items [])
  | statement => do
    let first ← Procedure.peek
    match first.kind with
    | .keyword .letKw | .keyword .constKw => run .declaration
    | .keyword .fnKw => Procedure.optionalSemicolon (run .functionDeclaration)
    | .keyword .forKw => Procedure.optionalSemicolon (run .countedLoop)
    | .keyword .whileKw => Procedure.optionalSemicolon (run .conditionalLoop)
    | _ => Procedure.optionalSemicolon do
      let e ← run .expression
      pure (.expr e)
  | declaration => do
    let keyword ← Procedure.next
    let constant := match keyword.kind with
      | .keyword .constKw => true
      | _ => false
    let declared ← Procedure.name .invalidDeclaration
    if ← Procedure.skipIf .semicolon then
      if constant then .fail ⟨.missingConstantValue declared, keyword.pos⟩
      else pure (.declare declared none constant keyword.pos)
    else
      Procedure.expect .assign
      let value ← run .expression
      Procedure.expectOr .semicolon fun t => ⟨.missingSemicolon t.kind, t.pos⟩
      pure (.declare declared (some value) constant keyword.pos)
  | functionDeclaration => do
    let keyword ← Procedure.next
    let declared ← Procedure.name .missingFunctionName
    Procedure.expectOr .leftParen fun t => ⟨.malformedParameters t.kind, t.pos⟩
    let listed ← run .commaList
    match paramNames listed with
    | .error e => .fail e
    | .ok params =>
      let body ← run .block
      pure (.function declared params body keyword.pos)
  | countedLoop => do
    let keyword ← Procedure.next
    let t ← Procedure.next
    match t.kind with
    | .number x =>
      match Number.count? x with
      | some n =>
        let body ← run .block
        pure (.loop n body keyword.pos)
      | none => .fail ⟨.invalidCount x, t.pos⟩
    | _ => .fail (.unexpected .iterationCount t)
  | conditionalLoop => do
    let keyword ← Procedure.next
    let condition ← run .expression
    let body ← run .block
    pure (.whileLoop condition body keyword.pos)
  | block => do
    Procedure.expect .leftBrace
    let body ← run (.loop (.statements true) [])
    Procedure.expect .rightBrace
    pure body
  | program => run (.loop (.statements false) [])
  | loop l state => l.procedure state

/-! ## Runs -/

namespace Procedure

/-- On a list of tokens the procedure begins a number of passes, those of the routines it calls
included, and gives a reply. A pass counts from where it begins, whether it comes to its end or
not. -/
inductive Runs : {α : Type} → Procedure α → List Token → Nat → Reply α → Prop
  | answer {α : Type} {a : α} {ts : List Token} : Runs (.answer a) ts 0 (.ok a ts)
  | fail {α : Type} {e : SyntaxError} {ts : List Token} :
      Runs (.fail e : Procedure α) ts 0 (.error e ts)
  | take {α : Type} {next : Token → Procedure α} {t : Token} {ts : List Token} {n : Nat}
      {reply : Reply α} : Runs (next t) ts n reply → Runs (.take next) (t :: ts) n reply
  | takeNone {α : Type} {next : Token → Procedure α} :
      Runs (.take next) [] 0 (.error .endOfInput [])
  | look {α : Type} {next : Option Token → Procedure α} {ts : List Token} {n : Nat}
      {reply : Reply α} : Runs (next ts.head?) ts n reply → Runs (.look next) ts n reply
  | pass {α : Type} {body : Procedure α} {ts : List Token} {n : Nat} {reply : Reply α} :
      Runs body ts n reply → Runs (.pass body) ts (n + 1) reply
  | call {α : Type} {r : Routine} {next : r.Result → Procedure α} {ts mid : List Token}
      {a : r.Result} {m n : Nat} {reply : Reply α} :
      Runs r.procedure ts m (.ok a mid) → Runs (next a) mid n reply →
      Runs (.call r next) ts (m + n) reply
  | callFails {α : Type} {r : Routine} {next : r.Result → Procedure α} {ts rest : List Token}
      {e : SyntaxError} {n : Nat} :
      Runs r.procedure ts n (.error e rest) → Runs (.call r next) ts n (.error e rest)

variable {α β : Type} {ts rest mid : List Token} {m n : Nat}

/-- There is no more than one run of a procedure on a list. -/
theorem Runs.unique {c : Procedure α} {reply reply' : Reply α} (h : c.Runs ts m reply)
    (h' : c.Runs ts n reply') : m = n ∧ reply = reply' := by
  induction h generalizing n with
  | answer | fail | takeNone =>
    cases h'
    exact ⟨rfl, rfl⟩
  | take _ ih =>
    cases h' with
    | take h' => exact ih h'
  | look _ ih =>
    cases h' with
    | look h' => exact ih h'
  | pass _ ih =>
    cases h' with
    | pass h' =>
      obtain ⟨rfl, rfl⟩ := ih h'
      exact ⟨rfl, rfl⟩
  | call _ _ ihcallee ih =>
    cases h' with
    | call hcallee h' =>
      obtain ⟨rfl, hreply⟩ := ihcallee hcallee
      obtain ⟨rfl, rfl⟩ := Reply.ok.inj hreply
      obtain ⟨rfl, rfl⟩ := ih h'
      exact ⟨rfl, rfl⟩
    | callFails hcallee => cases (ihcallee hcallee).2
  | callFails _ ihcallee =>
    cases h' with
    | call hcallee h' => cases (ihcallee hcallee).2
    | callFails hcallee =>
      obtain ⟨rfl, hreply⟩ := ihcallee hcallee
      obtain ⟨rfl, rfl⟩ := Reply.error.inj hreply
      exact ⟨rfl, rfl⟩

/-- Tokens are taken from the front only. -/
theorem Runs.suffix {c : Procedure α} {reply : Reply α} (h : c.Runs ts n reply) :
    reply.rest <:+ ts := by
  induction h with
  | answer | fail | takeNone => exact List.suffix_refl _
  | take _ ih => exact ih.trans (List.suffix_cons _ _)
  | look _ ih | pass _ ih | callFails _ ih => exact ih
  | call _ _ ihcallee ih => exact ih.trans ihcallee

/-- One procedure after another begins the passes of both. -/
theorem Runs.bind {c : Procedure α} {f : α → Procedure β} {a : α} {reply : Reply β}
    (h : c.Runs ts m (.ok a mid)) (hf : (f a).Runs mid n reply) :
    (c >>= f).Runs ts (m + n) reply := by
  induction c generalizing ts m with
  | answer b =>
    cases h
    rw [Nat.zero_add]
    exact hf
  | fail e => cases h
  | take next ih =>
    cases h with
    | take h => exact .take (ih _ h)
  | look next ih =>
    cases h with
    | look h => exact .look (ih _ h)
  | pass body ih =>
    cases h with
    | pass h =>
      rw [Nat.add_right_comm]
      exact .pass (ih h)
  | call r next ih =>
    cases h with
    | call hcallee h =>
      rw [Nat.add_assoc]
      exact .call hcallee (ih _ h)

theorem Runs.bind_error {c : Procedure α} {f : α → Procedure β} {e : SyntaxError}
    (h : c.Runs ts n (.error e rest)) : (c >>= f).Runs ts n (.error e rest) := by
  induction c generalizing ts n with
  | answer b => cases h
  | fail e =>
    cases h
    exact .fail
  | take next ih =>
    cases h with
    | take h => exact .take (ih _ h)
    | takeNone => exact .takeNone
  | look next ih =>
    cases h with
    | look h => exact .look (ih _ h)
  | pass body ih =>
    cases h with
    | pass h => exact .pass (ih h)
  | call r next ih =>
    cases h with
    | call hcallee h => exact .call hcallee (ih _ h)
    | callFails hcallee => exact .callFails hcallee

/-- To call a routine is to carry out its procedure. -/
theorem Runs.run {r : Routine} {reply : Reply r.Result} (h : r.procedure.Runs ts n reply) :
    (run r).Runs ts n reply := by
  cases reply with
  | ok a rest => exact .call h .answer
  | error e rest => exact .callFails h

end Procedure

end Scriptlet.Parser
