import Scriptlet.Proofs.Parser.Procedure

/-! # What parsers do with their tokens

Every pass of a loop takes a token, or fails for want of one. No counter sees to it: a pass of a
statement loop takes a token because every way through a statement does, down to the primaries. So
each pass can be paid for with a token, the first one that is taken in it, and no token pays twice.
Only the last pass may go unpaid, namely if the list has run out of tokens where it begins.

The mark at the end of a text is not passed over: where a token is taken that has not been looked at
before, the mark is refused. So a list with the mark does not run out.

`Handles` says both of the steps of one procedure, which is checked routine by routine, and
`Runs.spent` and `Runs.marked` carry it along a run, over all the routines that are called.
-/

namespace Scriptlet

/-- The error stands at a token: it is not that of a list which ends too early. -/
def SyntaxError.AtToken (e : SyntaxError) : Prop :=
  ∀ found, e.cause ≠ .unexpected .moreInput found

/-- An unexpected token is reported where it stands. -/
theorem SyntaxError.atToken_unexpected {expected : Expected} (h : expected ≠ .moreInput)
    (t : Token) : (SyntaxError.unexpected expected t).AtToken := by
  intro found heq
  rw [SyntaxError.unexpected, Cause.unexpected.injEq] at heq
  exact h heq.1

namespace Parser

open Procedure (run)

/-! ## Procedures that handle their tokens -/

/-- Whether a routine must take a token to succeed, besides the tokens that it pays with. -/
def Routine.takes : Routine → Bool
  | expression | tier _ | unary | call | primary => true
  | statement | declaration | functionDeclaration | countedLoop | conditionalLoop | block => true
  | commaList | program | loop _ _ => false

/-- Whether a routine starts with a keyword that has been looked at, and takes it unseen. -/
def Routine.follows : Routine → Bool
  | declaration | functionDeclaration | countedLoop | conditionalLoop => true
  | _ => false

namespace Procedure

/-- Every way through a procedure pays for its passes with tokens, each pass with the first token
that is taken in it, and refuses the mark at the end of a text where it takes it. If the procedure
owes a token, then it takes one before anything else, or calls a routine that does, or runs out of
tokens. The next token may be known not to be the mark, from having been looked at. -/
inductive Handles {α : Type} : Bool → Prop → Procedure α → Prop
  | answer {known : Prop} {a : α} : Handles false known (.answer a)
  | fail {known : Prop} {e : SyntaxError} : e.AtToken → Handles false known (.fail e)
  | take {owing : Bool} {known : Prop} {next : Token → Procedure α} :
      (∀ t, Handles false False (next t)) →
      (known ∨ ∀ t, t.kind = .endOfFile → ∃ e, next t = .fail e) → Handles owing known (.take next)
  | look {owing : Bool} {known : Prop} {next : Option Token → Procedure α} :
      (∀ first, Handles owing (∃ t ∈ first, t.kind ≠ .endOfFile) (next first)) →
      Handles owing known (.look next)
  | need {owing : Bool} {known : Prop} {next : Option Token → Procedure α} :
      (∀ t, Handles owing (t.kind ≠ .endOfFile) (next (some t))) → next none = .fail .endOfInput →
      Handles owing known (.look next)
  | pass {known : Prop} {body : Procedure α} :
      Handles true known body → Handles false known (.pass body)
  | call {owing : Bool} {known : Prop} {r : Routine} {next : r.Result → Procedure α} :
      (owing = true → r.takes = true) → (r.follows = true → known) →
      (∀ a, Handles false False (next a)) → Handles owing known (.call r next)

variable {α β : Type} {owing : Bool} {known : Prop}

/-- What is known of the next token need not be used. -/
theorem Handles.mono {known' : Prop} {c : Procedure α} (h : Handles owing known c)
    (hknown : known → known') : Handles owing known' c := by
  induction h with
  | answer => exact .answer
  | fail he => exact .fail he
  | take hnext hend => exact .take hnext (hend.imp_left hknown)
  | look hnext => exact .look hnext
  | need hnext hnone => exact .need hnext hnone
  | pass _ ih => exact .pass (ih hknown)
  | call hr hfollows hnext => exact .call hr (hknown ∘ hfollows) hnext

/-- The first procedure pays what is owed; what comes after it owes nothing. -/
theorem Handles.bind {c : Procedure α} {f : α → Procedure β} (h : Handles owing known c)
    (hf : ∀ a, Handles false False (f a)) : Handles owing known (c >>= f) := by
  induction h with
  | answer => exact (hf _).mono False.elim
  | fail he => exact .fail he
  | take _ hend ih =>
    refine .take ih (hend.imp_right fun hend t ht => ?_)
    obtain ⟨e, he⟩ := hend t ht
    exact ⟨e, congrArg (Procedure.bind · f) he⟩
  | look _ ih => exact .look ih
  | need _ hnone ih => exact .need ih (congrArg (Procedure.bind · f) hnone)
  | pass _ ih => exact .pass ih
  | call hr hfollows _ ih => exact .call hr hfollows ih

/-- A routine that must take a token may be called by a procedure that owes one. -/
theorem handles_run_of_takes {r : Routine} (htakes : r.takes = true)
    (hfollows : r.follows = true → known) : Handles owing known (run r) :=
  .call (fun _ => htakes) hfollows fun _ => .answer

/-- A routine that takes no token unseen may be called anywhere, if nothing is owed. -/
theorem handles_run {r : Routine} (hfollows : r.follows = false) : Handles false known (run r) := by
  refine .call (fun h => by cases h) (fun h => ?_) fun _ => .answer
  rw [hfollows] at h
  cases h

/-- A token that has been looked at is taken. -/
theorem handles_next_of_known {f : Token → Procedure α} (hknown : known)
    (hf : ∀ t, Handles false False (f t)) : Handles owing known (next >>= f) :=
  .take hf (.inl hknown)

/-- A token is taken by a procedure that refuses the mark. -/
theorem handles_next {f : Token → Procedure α} (hf : ∀ t, Handles false False (f t))
    (hend : ∀ t, t.kind = .endOfFile → ∃ e, f t = .fail e) : Handles owing known (next >>= f) :=
  .take hf (.inr hend)

/-- To look at a token pays nothing, but tells whether the token is the mark of the end. -/
theorem handles_peek {f : Token → Procedure α}
    (hf : ∀ t, Handles owing (t.kind ≠ .endOfFile) (f t)) : Handles owing known (peek >>= f) :=
  .need hf rfl

theorem handles_ite {c d : Procedure α} {p : Prop} [Decidable p] (hc : Handles owing known c)
    (hd : Handles owing known d) : Handles owing known (if p then c else d) := by
  split
  · exact hc
  · exact hd

end Procedure

theorem isSymbol_endOfFile {t : Token} (s : Symbol) (ht : t.kind = .endOfFile) :
    isSymbol s t = false := by
  rw [isSymbol, ht]

/-- The mark of the end is no symbol. -/
theorem ne_endOfFile_of_isSymbol {t : Token} {s : Symbol} (h : isSymbol s t = true) :
    t.kind ≠ .endOfFile := by
  intro ht
  rw [isSymbol_endOfFile s ht] at h
  cases h

/-- A next token that is a symbol is known not to be the mark. -/
theorem known_of_any {first : Option Token} {s : Symbol} (h : first.any (isSymbol s) = true) :
    ∃ t ∈ first, t.kind ≠ .endOfFile := by
  cases first with
  | none => cases h
  | some t => exact ⟨t, rfl, ne_endOfFile_of_isSymbol h⟩

namespace Procedure

variable {α : Type} {owing : Bool} {known : Prop}

theorem handles_skipIf (s : Symbol) : Handles false known (skipIf s) := by
  refine .look fun first => ?_
  split
  · next h => exact .take (fun _ => .answer) (.inl (known_of_any h))
  · exact .answer

/-- A token that is asked for pays, whether it is the right one or not. -/
theorem handles_expectOr (s : Symbol) {wrong : Token → SyntaxError}
    (hwrong : ∀ t, (wrong t).AtToken) : Handles owing known (expectOr s wrong) := by
  refine handles_next (fun t => handles_ite .answer (.fail (hwrong t))) fun t ht => ⟨wrong t, ?_⟩
  rw [if_neg (by rw [isSymbol_endOfFile s ht]; exact Bool.false_ne_true)]

theorem handles_expect (s : Symbol) : Handles owing known (expect s) :=
  handles_expectOr s (SyntaxError.atToken_unexpected fun h => by cases h)

theorem handles_name {wrong : Token.Kind → SyntaxError.Cause}
    (hwrong : ∀ kind expected found, wrong kind ≠ .unexpected expected found) :
    Handles owing known (name wrong) := by
  refine handles_next (fun t => ?_) fun t ht => ?_
  · split
    · exact .answer
    · exact .fail fun found => hwrong _ _ found
  · rw [ht]
    exact ⟨_, rfl⟩

theorem handles_optionalSemicolon {c : Procedure Stmt} (hc : Handles owing known c) :
    Handles owing known (optionalSemicolon c) :=
  hc.bind fun _ => (handles_skipIf _).bind fun _ => .answer

end Procedure

open Procedure

/-! ## Passes -/

/-- After its item, a pass takes a comma or the closing parenthesis, or fails at what stands there
instead. -/
theorem handles_itemPass {known : Prop} (before : List Expr) :
    Handles true known (itemPass before) := by
  have hwrong (t : Token) : (SyntaxError.unexpected .commaOrClose t).AtToken :=
    SyntaxError.atToken_unexpected (fun h => by cases h) t
  refine (handles_run_of_takes rfl fun h => by cases h).bind fun item =>
    handles_next (fun t => ?_) fun t ht => ⟨.unexpected .commaOrClose t, ?_⟩
  · exact handles_ite .answer (handles_ite .answer (.fail (hwrong t)))
  · simp only [isSymbol_endOfFile _ ht, Bool.false_eq_true, if_false]

theorem handles_callPass {known : Prop} (hknown : known) (callee : Expr) :
    Handles true known (callPass callee) :=
  handles_next_of_known hknown fun _ => (handles_run rfl).bind fun _ => .answer

theorem handles_operatorPass {known : Prop} (hknown : known) (level : Nat) (op : Operator)
    (left : Expr) : Handles true known (operatorPass level op left) :=
  handles_next_of_known hknown fun _ => (handles_run rfl).bind fun _ => .answer

/-- A statement takes a token if it comes to its end. -/
theorem handles_statementPass {known : Prop} (before : List Stmt) :
    Handles true known (statementPass before) := by
  have hstatement : Handles true known (run .statement) :=
    handles_run_of_takes rfl fun h => by cases h
  exact hstatement.bind fun _ => .answer

/-- A pass takes a token before anything else. -/
theorem Loop.handles_pass {l : Loop} {state : l.State} {first : Option Token}
    {pass : Procedure (Turn l.State)} (h : l.pass? state first = some pass) :
    Handles true (∃ t ∈ first, t.kind ≠ .endOfFile) pass := by
  cases l with
  | items =>
    cases h
    exact handles_itemPass state
  | calls =>
    obtain ⟨hopen, h⟩ := Option.ite_none_right_eq_some.mp h
    cases h
    exact handles_callPass (known_of_any hopen) state
  | operators level =>
    rw [Loop.pass?] at h
    split at h
    · next op hop =>
      obtain ⟨-, h⟩ := Option.ite_none_right_eq_some.mp h
      cases h
      obtain ⟨t, rfl, ht⟩ := Option.bind_eq_some_iff.mp hop
      refine handles_operatorPass ⟨t, rfl, fun hend => ?_⟩ level op state
      rw [hend] at ht
      cases ht
    · cases h
  | statements inBlock =>
    obtain ⟨-, h⟩ := Option.ite_none_left_eq_some.mp h
    cases h
    exact handles_statementPass state

/-- Each pass of a loop pays for itself, so a loop owes nothing. -/
theorem Loop.handles_procedure {known : Prop} (l : Loop) (state : l.State) :
    Handles false known (l.procedure state) := by
  refine .look fun first => ?_
  split
  · next pass hpass =>
    refine .pass ((l.handles_pass hpass).bind fun turn => ?_)
    cases turn with
    | again state => exact handles_run rfl
    | last state => exact .answer
  · exact .answer

/-! ## Routines -/

/-- The names of a list of expressions are refused for what they are, not for want of tokens. -/
theorem atToken_of_paramNames {es : List Expr} {e : SyntaxError} (h : paramNames es = .error e) :
    e.AtToken := by
  induction es with
  | nil => cases h
  | cons first es ih =>
    cases first with
    | identifier x pos =>
      rw [paramNames] at h
      cases hrest : paramNames es with
      | ok names =>
        rw [hrest] at h
        cases h
      | error e' =>
        rw [hrest] at h
        cases h
        exact ih hrest
    | _ =>
      cases h
      intro found hcause
      cases hcause

/-- Routines pay for their passes and refuse the mark, and those that must take a token do so
first. -/
theorem Routine.handles_procedure (r : Routine) :
    Handles r.takes (r.follows = true) r.procedure := by
  cases r with
  | expression =>
    refine (handles_run_of_takes rfl fun h => by cases h).bind fun target => ?_
    refine (handles_skipIf _).bind fun taken => handles_ite ?_ .answer
    exact (handles_run rfl).bind fun _ => .answer
  | tier level =>
    cases level with
    | zero => exact handles_run_of_takes rfl fun h => by cases h
    | succ level =>
      exact (handles_run_of_takes rfl fun h => by cases h).bind fun _ => handles_run rfl
  | unary =>
    refine .look fun first => ?_
    split
    · next hnot =>
      exact handles_next_of_known (known_of_any hnot) fun t => (handles_run rfl).bind fun _ => .answer
    · exact handles_run_of_takes rfl fun h => by cases h
  | call => exact (handles_run_of_takes rfl fun h => by cases h).bind fun _ => handles_run rfl
  | primary =>
    refine handles_next (fun t => ?_) fun t ht => ?_
    · split
      · exact .answer
      · exact .answer
      · exact (handles_run rfl).bind fun _ => (handles_expect _).bind fun _ => .answer
      · exact .fail (SyntaxError.atToken_unexpected (fun h => by cases h) t)
    · rw [ht]
      exact ⟨_, rfl⟩
  | commaList => exact (handles_skipIf _).bind fun _ => handles_ite .answer (handles_run rfl)
  | statement =>
    refine handles_peek fun first => ?_
    cases hkind : first.kind with
    | keyword word =>
      have hknown : Token.Kind.keyword word ≠ .endOfFile := fun h => by cases h
      cases word with
      | letKw | constKw => exact handles_run_of_takes rfl fun _ => hknown
      | fnKw | forKw | whileKw =>
        exact handles_optionalSemicolon (handles_run_of_takes rfl fun _ => hknown)
    | _ =>
      have hexpression {known : Prop} : Handles true known (run expression) :=
        handles_run_of_takes rfl fun h => by cases h
      exact handles_optionalSemicolon (hexpression.bind fun _ => .answer)
  | declaration =>
    refine handles_next_of_known rfl fun keyword => ?_
    refine (handles_name fun _ _ _ h => by cases h).bind fun declared => ?_
    refine (handles_skipIf _).bind fun taken => handles_ite (handles_ite ?_ .answer) ?_
    · exact .fail fun _ h => by cases h
    · refine (handles_expect _).bind fun _ => (handles_run rfl).bind fun value => ?_
      exact (handles_expectOr _ fun t _ h => by cases h).bind fun _ => .answer
  | functionDeclaration =>
    refine handles_next_of_known rfl fun keyword => ?_
    refine (handles_name fun _ _ _ h => by cases h).bind fun declared => ?_
    refine (handles_expectOr _ fun t _ h => by cases h).bind fun _ => ?_
    refine (handles_run rfl).bind fun listed => ?_
    split
    · next hnames => exact .fail (atToken_of_paramNames hnames)
    · exact (handles_run rfl).bind fun _ => .answer
  | countedLoop =>
    refine handles_next_of_known rfl fun keyword => handles_next (fun t => ?_) fun t ht => ?_
    · split
      · split
        · exact (handles_run rfl).bind fun _ => .answer
        · exact .fail fun _ h => by cases h
      · exact .fail (SyntaxError.atToken_unexpected (fun h => by cases h) t)
    · rw [ht]
      exact ⟨_, rfl⟩
  | conditionalLoop =>
    refine handles_next_of_known rfl fun keyword => (handles_run rfl).bind fun condition => ?_
    exact (handles_run rfl).bind fun _ => .answer
  | block =>
    refine (handles_expect _).bind fun _ => (handles_run rfl).bind fun body => ?_
    exact (handles_expect _).bind fun _ => .answer
  | program => exact handles_run rfl
  | loop l state => exact l.handles_procedure state

/-! ## Runs -/

namespace Procedure

variable {α : Type} {ts rest : List Token} {n : Nat} {reply : Reply α} {c : Procedure α}
  {owing : Bool} {known : Prop}

/-- What a procedure has made of its tokens: it began no more passes than it took tokens, and took
one more if it owed one. If the list ran out of tokens, one more pass may have begun. -/
def Spent (owing : Bool) (ts : List Token) (n : Nat) (reply : Reply α) : Prop :=
  n + reply.rest.length + owing.toNat ≤ ts.length ∨
    reply = .error .endOfInput [] ∧ n + owing.toNat ≤ ts.length + 1

theorem toNat_le_takes {r : Routine} (h : owing = true → r.takes = true) :
    owing.toNat ≤ r.takes.toNat := by
  cases owing with
  | false => exact Nat.zero_le _
  | true => exact Nat.le_of_eq (by rw [h rfl])

/-- A token that is taken pays what is owed. -/
theorem Spent.take {t : Token} (h : Spent false ts n reply) : Spent owing (t :: ts) n reply := by
  have howing := owing.toNat_le
  rcases h with hle | ⟨hreply, hle⟩
  · rw [Bool.toNat_false] at hle
    exact .inl (by rw [List.length_cons]; omega)
  · rw [Bool.toNat_false] at hle
    exact .inr ⟨hreply, by rw [List.length_cons]; omega⟩

/-- A list that has run out is no reason to pay. -/
theorem Spent.out : Spent owing [] 0 (.error .endOfInput [] : Reply α) := by
  have howing := owing.toNat_le
  exact .inr ⟨rfl, by omega⟩

/-- The token that the body of a pass owes has not been paid with in the body, so it pays for the
pass. -/
theorem Spent.pass (h : Spent true ts n reply) : Spent false ts (n + 1) reply := by
  rcases h with hle | ⟨hreply, hle⟩
  · rw [Bool.toNat_true] at hle
    exact .inl (by rw [Bool.toNat_false]; omega)
  · rw [Bool.toNat_true] at hle
    exact .inr ⟨hreply, by rw [Bool.toNat_false]; omega⟩

/-- What a routine has paid is paid for its caller, too, who goes on with the tokens that are left. -/
theorem Spent.after {β : Type} {a : β} {mid : List Token} {n' : Nat} {owing' : Bool}
    (hcallee : Spent owing' ts n (.ok a mid)) (hle : owing.toNat ≤ owing'.toNat)
    (h : Spent false mid n' reply) : Spent owing ts (n + n') reply := by
  rcases hcallee with hcallee | ⟨hreply, -⟩
  · rw [Reply.rest] at hcallee
    rcases h with hrest | ⟨hreply, hrest⟩
    · rw [Bool.toNat_false] at hrest
      exact .inl (by omega)
    · rw [Bool.toNat_false] at hrest
      exact .inr ⟨hreply, by omega⟩
  · cases hreply

/-- The failure of a routine is that of its caller. -/
theorem Spent.error {β : Type} {e : SyntaxError} {owing' : Bool}
    (h : Spent owing' ts n (.error e rest : Reply β)) (hle : owing.toNat ≤ owing'.toNat) :
    Spent owing ts n (.error e rest : Reply α) := by
  rcases h with hcallee | ⟨hreply, hcallee⟩
  · rw [Reply.rest] at hcallee
    exact .inl (by rw [Reply.rest]; omega)
  · cases hreply
    exact .inr ⟨rfl, by omega⟩

/-- Passes are paid for along every run, by induction on the run. -/
theorem Runs.spent (h : c.Runs ts n reply) (hc : Handles owing known c) :
    Spent owing ts n reply := by
  induction h generalizing owing known with
  | answer | fail =>
    cases hc
    exact .inl (by simp [Reply.rest])
  | take _ ih =>
    cases hc with
    | take hnext => exact (ih (hnext _)).take
  | takeNone => exact .out
  | @look _ _ ts _ _ h ih =>
    cases hc with
    | look hnext => exact ih (hnext _)
    | need hnext hnone =>
      cases ts with
      | nil =>
        rw [List.head?_nil, hnone] at h
        cases h
        exact .out
      | cons t ts => exact ih (hnext t)
  | pass _ ih =>
    cases hc with
    | pass hbody => exact (ih hbody).pass
  | @call _ r _ _ _ _ _ _ _ _ _ ihcallee ih =>
    cases hc with
    | call hr _ hnext =>
      exact (ihcallee r.handles_procedure).after (toNat_le_takes hr) (ih (hnext _))
  | @callFails _ r _ _ _ _ _ _ ih =>
    cases hc with
    | call hr _ _ => exact (ih r.handles_procedure).error (toNat_le_takes hr)

/-- Whoever owes a token and succeeds has taken one. -/
theorem Runs.length_lt {a : α} (h : c.Runs ts n (.ok a rest)) (hc : Handles true True c) :
    rest.length < ts.length := by
  rcases h.spent hc with hspent | ⟨hreply, -⟩
  · rw [Reply.rest, Bool.toNat_true] at hspent
    omega
  · cases hreply

/-- Whoever owes a token and finds none fails for want of one, before any pass begins. -/
theorem Runs.nil (h : c.Runs [] n reply) (hc : Handles true True c) :
    n = 0 ∧ reply = .error .endOfInput [] := by
  rcases h.spent hc with hspent | ⟨hreply, hle⟩
  · rw [List.length_nil, Bool.toNat_true] at hspent
    omega
  · rw [List.length_nil, Bool.toNat_true] at hle
    exact ⟨by omega, hreply⟩

/-- The reply leaves the mark at the end of a text where it is, or is an error at a token. -/
def Marked : Reply α → Prop
  | .ok _ rest => ∃ t ∈ rest, t.kind = .endOfFile
  | .error e _ => e.AtToken

/-- A list with the mark at the end of a text does not run out, by induction on the run. -/
theorem Runs.marked (h : c.Runs ts n reply) (hc : Handles owing known c)
    (hknown : known → ∀ t ∈ ts.head?, t.kind ≠ .endOfFile)
    (hmark : ∃ t ∈ ts, t.kind = .endOfFile) : Marked reply := by
  induction h generalizing owing known with
  | answer => exact hmark
  | fail =>
    cases hc with
    | fail he => exact he
  | @take _ next t ts _ _ hrun ih =>
    cases hc with
    | take hnext hend =>
      by_cases ht : t.kind = .endOfFile
      · -- the mark is taken, so it has not been looked at, and is refused
        rcases hend with hyes | hend
        · exact absurd ht (hknown hyes t rfl)
        · obtain ⟨e, he⟩ := hend t ht
          have hfail := hnext t
          rw [he] at hrun hfail
          cases hrun
          cases hfail with
          | fail he => exact he
      · refine ih (hnext t) False.elim ?_
        obtain ⟨u, hu, hend⟩ := hmark
        rcases List.mem_cons.mp hu with rfl | hu
        · exact absurd hend ht
        · exact ⟨u, hu, hend⟩
  | takeNone =>
    obtain ⟨t, ht, -⟩ := hmark
    cases ht
  | @look _ _ ts _ _ h ih =>
    cases hc with
    | look hnext =>
      refine ih (hnext _) (fun hyes t ht => ?_) hmark
      obtain ⟨u, hu, hne⟩ := hyes
      rw [Option.mem_unique ht hu]
      exact hne
    | need hnext hnone =>
      cases ts with
      | nil =>
        obtain ⟨t, ht, -⟩ := hmark
        cases ht
      | cons t ts =>
        refine ih (hnext t) (fun hne u hu => ?_) hmark
        obtain rfl : t = u := Option.some.inj hu
        exact hne
  | pass _ ih =>
    cases hc with
    | pass hbody => exact ih hbody hknown hmark
  | @call _ r _ _ _ _ _ _ _ _ _ ihcallee ih =>
    cases hc with
    | call _ hfollows hnext =>
      have hmid := ihcallee r.handles_procedure (hknown ∘ hfollows) hmark
      exact ih (hnext _) False.elim hmid
  | @callFails _ r _ _ _ _ _ _ ih =>
    cases hc with
    | call _ hfollows _ => exact ih r.handles_procedure (hknown ∘ hfollows) hmark

end Procedure

end Parser

end Scriptlet
