import Scriptlet.Proofs.Parser.Failure

/-! # Programs are rejected at the earliest token

The parsers of statements fail exactly where statements break off. So a rejected text is rejected
for its tokens up to one that is out of place, whatever comes after it, and what comes before it can
still become a program. Parameter lists are the exception, since they are read as expressions first.
-/

namespace Scriptlet.Grammar

theorem BreaksBlock.ne_nil {w : List Token} {e : SyntaxError} (h : BreaksBlock w e) : w ≠ [] := by
  cases h <;> simp

theorem BreaksStatement.ne_nil {w : List Token} {e : SyntaxError} (h : BreaksStatement w e) :
    w ≠ [] := by
  cases h with
  | expr _ h => exact h.ne_nil
  | _ => simp

/-- A break has a token that it stands at. -/
theorem BreaksStatements.ne_nil {stop : Token → Bool} {w : List Token} {e : SyntaxError}
    (h : BreaksStatements stop w e) : w ≠ [] := by
  cases h with
  | first _ h => exact h.ne_nil
  | later hu _ _ => simp [hu.ne_nil]

end Scriptlet.Grammar

namespace Scriptlet.Parser

open Grammar

/-! ## Lists of statements -/

section Lists

variable {bound passes : Nat} {stop : Token → Bool} {statement : Parser Stmt}

theorem stopsBefore_append {v : List Token} (hv : v ≠ []) (rest : List Token) :
    stopsBefore stop (v ++ rest) = stopsBefore stop v := by
  cases v with
  | nil => exact absurd rfl hv
  | cons t v => rfl

/-- Tokens show a statement before them where to end, whatever comes after them. -/
theorem wholeStatement_append_iff {s : Stmt} {u v : List Token} (hv : v ≠ []) (rest : List Token) :
    WholeStatement s u (v ++ rest) ↔ WholeStatement s u v := by
  cases v with
  | nil => exact absurd rfl hv
  | cons t v => simp [WholeStatement, Ends, Closed]

/-- Statements break inside of one of them, by induction on the passes that are left. The list
itself ends without a failure. -/
theorem statementsUntil_fails (hstop : ∀ t, stop t = true → t.kind = .symbol .rightBrace)
    (hstatement : Reads bound statement WholeStatement)
    (hfail : Fails bound statement BreaksStatement) (hbound : bound ≤ passes + 1)
    (before : List Stmt) :
    Fails bound (statementsUntil stop statement passes before) (BreaksStatements stop) := by
  induction passes generalizing bound before with
  | zero =>
    intro ts e rest hlen
    obtain rfl : ts = [] := List.length_eq_zero_iff.mp (by omega)
    refine eq_error_nil_iff (fun e rest h => ?_) fun _ _ => BreaksStatements.ne_nil
    cases h
  | succ passes ih =>
    -- where the list does not end, a statement and then the others are read
    have hpass := hfail.bind_of_le hstatement
      (fun s => ih (hstatement.mono (Nat.sub_le bound 1)) (hfail.mono (Nat.sub_le bound 1))
        (by omega) (s :: before))
      (fun _ _ _ hu => by have hpos := hu.1.length_pos; omega)
      fun _ _ _ rest _ hv => wholeStatement_append_iff hv.ne_nil rest
    intro ts e rest hlen
    by_cases hbefore : stopsBefore stop ts = true
    · have hreply : statementsUntil stop statement (passes + 1) before ts = .ok before.reverse ts :=
        if_pos hbefore
      rw [hreply]
      constructor
      · rintro ⟨h, -⟩
        cases h
      · rintro ⟨w, rfl, h⟩
        cases h with
        | first hgoes h =>
          rw [stopsBefore_append h.ne_nil, hgoes] at hbefore
          cases hbefore
        | later hu _ _ =>
          rw [List.append_assoc, stopsBefore_statement hstop hu] at hbefore
          cases hbefore
    · have hreply : statementsUntil stop statement (passes + 1) before ts =
          (statement >>= fun s => statementsUntil stop statement passes (s :: before)) ts := by
        rw [statementsUntil, bind_apply]
        change (if stopsBefore stop ts = true then _ else _) = _
        rw [if_neg hbefore]
        cases statement ts <;> rfl
      rw [hreply, hpass ts e rest hlen]
      constructor
      · rintro ⟨w, rfl, h | ⟨s, u, v, rfl, ⟨hu, hends⟩, h⟩⟩
        · rw [stopsBefore_append h.ne_nil] at hbefore
          exact ⟨w, rfl, .first (by simpa using hbefore) h⟩
        · exact ⟨u ++ v, rfl, .later hu hends h⟩
      · rintro ⟨w, rfl, h⟩
        cases h with
        | first _ h => exact ⟨w, rfl, Or.inl h⟩
        | later hu hends h => exact ⟨_, rfl, Or.inr ⟨_, _, _, rfl, ⟨hu, hends⟩, h⟩⟩

/-- A block breaks at its opening brace, inside, or where it is not closed. -/
theorem block_fails (hstatement : Reads bound statement WholeStatement)
    (hfail : Fails bound statement BreaksStatement) (hbound : bound ≤ passes + 1) :
    Fails (bound + 1) (block statement passes) BreaksBlock := by
  have hstop : ∀ t, isSymbol .rightBrace t = true → t.kind = .symbol .rightBrace :=
    fun t => isSymbol_iff.mp
  have hinner := (statementsUntil_fails hstop hstatement hfail hbound []).bind
    (statementsUntil_reads hstop hstatement hbound [])
    (fun body => (expect_fails .rightBrace).bind_pure fun _ => body) (by
      rintro body u v rest e ⟨t, -, rfl, -⟩
      rw [stopsBefore_append (by simp)])
  have hfails := (expect_fails .leftBrace).bind_token (expect_reads .leftBrace) (fun _ => hinner)
    (Nat.le_refl _)
  refine hfails.congr fun w e => ?_
  constructor
  · rintro (⟨t, ht, rfl, rfl⟩ | ⟨-, l, v, rfl, hl, h |
      ⟨body, w, v, rfl, ⟨new, rfl, hnew, hend⟩, t, ht, rfl, rfl⟩⟩)
    · exact .opening ht
    · exact .inside hl h
    · exact .unclosed hl hnew ((stopsBefore_kind hstop hend t rfl).resolve_left ht)
  · intro h
    cases h with
    | opening ht => exact Or.inl ⟨_, ht, rfl, rfl⟩
    | inside hl h => exact Or.inr ⟨(), _, _, rfl, hl, Or.inl h⟩
    | @unclosed l t ss w hl hw ht =>
      have hend : stopsBefore (isSymbol .rightBrace) [t] = true := by
        simp [stopsBefore, atEnd_iff, ht]
      exact Or.inr ⟨(), l, w ++ [t], rfl, hl, Or.inr ⟨ss, w, [t], rfl, ⟨ss, rfl, hw, hend⟩, t,
        by simp [ht], rfl, rfl⟩⟩

end Lists

/-! ## Statements -/

section Statements

variable {bound passes : Nat} {expression : Parser Expr} {block : Parser (List Stmt)}

theorem name_reads (wrong : Token.Kind → SyntaxError.Cause) :
    Reads bound (name wrong) fun x w _ => ∃ t, t.kind = .identifier x ∧ w = [t] := by
  intro ts x rest _
  rw [name_eq_ok]
  constructor
  · rintro ⟨t, ht, rfl⟩
    exact ⟨[t], rfl, t, ht, rfl⟩
  · rintro ⟨w, rfl, t, ht, rfl⟩
    exact ⟨t, ht, rfl⟩

/-- A token that is no name breaks what is read. -/
theorem name_fails (wrong : Token.Kind → SyntaxError.Cause)
    (hwrong : ∀ k, wrong k ≠ .unexpected .moreInput .endOfFile) :
    Fails bound (name wrong) fun w e =>
      ∃ t, (∀ x, t.kind ≠ .identifier x) ∧ w = [t] ∧ e = ⟨wrong t.kind, t.pos⟩ := by
  have hfails : Fails (bound + 1) (name wrong) fun w e => ∃ t v, w = t :: v ∧
      ((∀ x, t.kind ≠ .identifier x) ∧ v = [] ∧ e = ⟨wrong t.kind, t.pos⟩) := by
    refine next_fails fun t => ?_
    cases hk : t.kind with
    | identifier x => exact (pure_fails x).congr fun v e => by simp
    | _ => exact (fail_fails (ne_endOfInput _ t.pos (hwrong _))).congr fun v e => by simp
  refine (hfails.mono (Nat.le_succ bound)).congr fun w e => ?_
  constructor
  · rintro ⟨t, v, rfl, ht, rfl, rfl⟩
    exact ⟨t, ht, rfl, rfl⟩
  · rintro ⟨t, ht, rfl, rfl⟩
    exact ⟨t, [], rfl, ht, rfl, rfl⟩

/-- What is left of a declaration after its keyword. -/
theorem declaration_cons {constant : Bool} {k : Token}
    (hk : k.kind = .keyword (declarationKeyword constant)) (ts : List Token) :
    declaration expression (k :: ts) =
      (name .invalidDeclaration >>= fun x => skipIf .semicolon >>= fun skipped =>
        if skipped = true then
          if constant = true then fail ⟨.missingConstantValue x, k.pos⟩
          else pure (.declare x none constant k.pos)
        else expect .assign >>= fun _ => expression >>= fun value =>
          expectOr .semicolon (fun t => ⟨.missingSemicolon t.kind, t.pos⟩) >>= fun _ =>
            pure (.declare x (some value) constant k.pos)) ts := by
  obtain ⟨kind, pos, span⟩ := k
  obtain rfl : kind = .keyword (declarationKeyword constant) := hk
  cases constant <;> rfl

theorem declaration_eq_error (hexpression : Reads bound expression (Whole .assignment))
    (hfail : Fails bound expression (Breaks .assignment)) (constant : Bool) {k : Token}
    (hk : k.kind = .keyword (declarationKeyword constant)) {ts rest : List Token} {e : SyntaxError}
    (hlen : ts.length < bound) :
    declaration expression (k :: ts) = .error e rest ∧ e ≠ .endOfInput ↔
      ∃ w, ts = w ++ rest ∧ BreaksDeclaration constant k.pos w e := by
  have hunset (x : String) : Fails bound
      (if constant = true then fail ⟨.missingConstantValue x, k.pos⟩
        else pure (Stmt.declare x none constant k.pos)) _ :=
    ite_fails (fun _ => fail_fails (ne_endOfInput _ k.pos (by simp))) fun _ => pure_fails _
  have hset (x : String) := (expect_fails .assign).bind_token (expect_reads .assign)
    (fun _ => upTo_fails hexpression hfail .semicolon
      (fun t => ne_endOfInput (.missingSemicolon t.kind) t.pos (by simp))
      fun value => Stmt.declare x (some value) constant k.pos)
    (Nat.le_succ bound)
  have hfails := (name_fails .invalidDeclaration (by simp)).bind_token
    (name_reads .invalidDeclaration)
    (fun x => skipIf_fails (s := .semicolon) (hunset x) (hset x) (Nat.le_succ bound) (by
      rintro w e (⟨t, -, rfl, -⟩ | ⟨-, a, v, rfl, -⟩) <;> simp))
    (Nat.le_succ bound)
  rw [declaration_cons hk]
  refine (hfails.congr fun w e => ?_) ts e rest hlen
  constructor
  · rintro (⟨t, ht, rfl, rfl⟩ | ⟨x, n, v, rfl, hn,
      ⟨s, v, hs, rfl, ⟨hconstant, rfl, rfl⟩ | ⟨-, ⟨⟩⟩⟩ |
      ⟨hfirst, ⟨t, ht, rfl, rfl⟩ |
        ⟨-, a, v, rfl, ha, h | ⟨value, u, t, rfl, hu, hend, ht, rfl⟩⟩⟩⟩)
    · exact .name ht
    · exact .unset hconstant hn hs
    · exact .sign hn (hfirst t rfl) ht
    · exact .value hn ha h
    · exact .semicolon hn ha hu hend ht
  · have hassign {a : Token} (ha : a.kind = .symbol .assign) (v : List Token) :
        NotFirst .semicolon (a :: v) := by
      rintro k ⟨⟩
      simp [ha]
    intro h
    cases h with
    | name ht => exact Or.inl ⟨_, ht, rfl, rfl⟩
    | @unset x n t hconstant hn ht =>
      exact Or.inr ⟨x, n, [t], rfl, hn, Or.inl ⟨t, [], ht, rfl, Or.inl ⟨hconstant, rfl, rfl⟩⟩⟩
    | @sign x n t hn hs ha =>
      refine Or.inr ⟨x, n, [t], rfl, hn, Or.inr ⟨?_, Or.inl ⟨t, ha, rfl, rfl⟩⟩⟩
      rintro k ⟨⟩
      exact hs
    | @value x n a w _ hn ha h =>
      exact Or.inr ⟨x, n, a :: w, rfl, hn, Or.inr ⟨hassign ha w, Or.inr ⟨(), a, w, rfl, ha,
        Or.inl h⟩⟩⟩
    | @semicolon x n a t value w hn ha hw hend ht =>
      exact Or.inr ⟨x, n, a :: (w ++ [t]), rfl, hn, Or.inr ⟨hassign ha _, Or.inr ⟨(), a, w ++ [t],
        rfl, ha, Or.inr ⟨value, w, t, rfl, hw, hend, ht, rfl⟩⟩⟩⟩

/-- A function breaks at its name, in its parameters or in its body. Parameters that are no names
are found only when all are read. -/
theorem functionDeclaration_fails (hexpression : Reads bound expression (Whole .assignment))
    (hfail : Fails bound expression (Breaks .assignment)) (hblock : Fails bound block BreaksBlock)
    (hbound : bound ≤ passes + 1) :
    Fails (bound + 1) (functionDeclaration expression block passes) fun w e =>
      ∃ k v, w = k :: v ∧ BreaksFunction v e := by
  -- the expressions in the parentheses must be names before the body is read
  have hbody (k : Token) (x : String) (es : List Expr) {p : Parser Stmt}
      (herror : ∀ e, paramNames es = .error e → p = fail e)
      (hok : ∀ xs, paramNames es = .ok xs →
        p = block >>= fun body => pure (.function x xs body k.pos)) :
      Fails bound p fun w e => paramNames es = .error e ∧ w = [] ∨
        ∃ xs, paramNames es = .ok xs ∧ BreaksBlock w e := by
    cases hnames : paramNames es with
    | error e =>
      have hcause : e ≠ .endOfInput := by
        rintro rfl
        cases paramNames_error_cause hnames
      rw [herror e hnames]
      exact (fail_fails hcause).congr fun w e' => by simp [and_comm, eq_comm]
    | ok xs =>
      rw [hok xs hnames]
      exact (hblock.bind_pure fun body => Stmt.function x xs body k.pos).congr fun w e => by simp
  have hlist := commaList_fails hexpression hfail hbound
  refine next_fails fun k => ?_
  refine Fails.congr
    ((name_fails .missingFunctionName (by simp)).bind_token (name_reads .missingFunctionName)
      (fun x => (expectOr_fails .leftParen fun t => ne_endOfInput _ t.pos (by simp)).bind_token
        (expectOr_reads .leftParen _)
        (fun _ => hlist.bind (commaList_reads hexpression hbound)
          (fun es => hbody k x es (fun e he => by rw [he]) fun xs hxs => by rw [hxs])
          fun _ _ _ _ _ _ => Iff.rfl)
        (Nat.le_succ bound))
      (Nat.le_succ bound))
    fun w e => ?_
  constructor
  · rintro (⟨t, ht, rfl, rfl⟩ | ⟨x, n, v, rfl, hn, ⟨t, ht, rfl, rfl⟩ | ⟨-, l, v, rfl, hl,
      ⟨hfirst, h⟩ | ⟨es, u, v, rfl, hu, ⟨hnames, rfl⟩ | ⟨xs, hnames, h⟩⟩⟩⟩)
    · exact .name ht
    · exact .opening hn ht
    · exact .parameters hn hl hfirst h
    · rw [List.append_nil]
      exact .closing hn hl hu hnames
    · exact .body hn hl (params_iff.mpr ⟨es, hu, hnames⟩) h
  · intro h
    cases h with
    | name ht => exact Or.inl ⟨_, ht, rfl, rfl⟩
    | @opening x n t hn ht => exact Or.inr ⟨x, n, [t], rfl, hn, Or.inl ⟨t, ht, rfl, rfl⟩⟩
    | @parameters x n l w _ hn hl hfirst h =>
      exact Or.inr ⟨x, n, l :: w, rfl, hn, Or.inr ⟨(), l, w, rfl, hl, Or.inl ⟨hfirst, h⟩⟩⟩
    | @closing x n l es w _ hn hl hw hnames =>
      exact Or.inr ⟨x, n, l :: w, rfl, hn, Or.inr ⟨(), l, w, rfl, hl, Or.inr ⟨es, w, [],
        (List.append_nil w).symm, hw, Or.inl ⟨hnames, rfl⟩⟩⟩⟩
    | @body x xs n l u v _ hn hl hu h =>
      obtain ⟨es, hes, hnames⟩ := params_iff.mp hu
      exact Or.inr ⟨x, n, l :: (u ++ v), rfl, hn, Or.inr ⟨(), l, u ++ v, rfl, hl, Or.inr ⟨es, u, v,
        rfl, hes, Or.inr ⟨xs, hnames, h⟩⟩⟩⟩

/-- A loop breaks at its count, which must be a number and a count, or in its body. -/
theorem countedLoop_fails (hblock : Fails bound block BreaksBlock) :
    Fails (bound + 1) (countedLoop block) fun w e => ∃ k v, w = k :: v ∧ BreaksLoop v e := by
  have hfails : Fails (bound + 1) (countedLoop block) fun w e => ∃ k w', w = k :: w' ∧
      ∃ t v, w' = t :: v ∧ ((∀ x, t.kind ≠ .number x) ∧ v = [] ∧ e = .unexpected .iterationCount t ∨
        ∃ x, t.kind = .number x ∧ (Number.count? x = none ∧ v = [] ∧ e = ⟨.invalidCount x, t.pos⟩ ∨
          ∃ count, Number.count? x = some count ∧ BreaksBlock v e)) := by
    refine next_fails fun k => Fails.mono (next_fails fun t => ?_) (Nat.le_succ bound)
    cases hk : t.kind with
    | number x =>
      cases hcount : Number.count? x with
      | none =>
        have hinvalid : (⟨.invalidCount x, t.pos⟩ : SyntaxError) ≠ .endOfInput :=
          ne_endOfInput _ t.pos (by simp)
        simp only [hcount]
        exact (fail_fails hinvalid).congr fun v e => by simp [hcount]
      | some count =>
        simp only [hcount]
        exact (hblock.bind_pure fun body => Stmt.loop count body k.pos).congr fun v e => by
          simp [hcount]
    | _ =>
      have hwrong : SyntaxError.unexpected .iterationCount t ≠ .endOfInput :=
        unexpected_ne_endOfInput (by simp) t
      exact (fail_fails hwrong).congr fun v e => by simp
  refine hfails.congr fun w e =>
    exists_congr fun k => exists_congr fun v => and_congr_right fun _ => ?_
  constructor
  · rintro ⟨t, v, rfl, ⟨ht, rfl, rfl⟩ | ⟨x, ht, ⟨hcount, rfl, rfl⟩ | ⟨count, hcount, h⟩⟩⟩
    · exact .count ht
    · refine .invalid ht fun count hvalid => ?_
      rw [(Number.count?_eq_some_iff x count).mpr hvalid] at hcount
      cases hcount
    · exact .body ht ((Number.count?_eq_some_iff x count).mp hcount) h
  · intro h
    cases h with
    | count ht => exact ⟨_, [], rfl, Or.inl ⟨ht, rfl, rfl⟩⟩
    | @invalid x t ht hinvalid =>
      refine ⟨t, [], rfl, Or.inr ⟨x, ht, Or.inl ⟨?_, rfl, rfl⟩⟩⟩
      refine Option.eq_none_iff_forall_ne_some.mpr fun count hcount => ?_
      exact hinvalid count ((Number.count?_eq_some_iff x count).mp hcount)
    | @body x count n w _ hn hcount h =>
      have hsome := (Number.count?_eq_some_iff x count).mpr hcount
      exact ⟨n, w, rfl, Or.inr ⟨x, hn, Or.inr ⟨count, hsome, h⟩⟩⟩

theorem conditionalLoop_fails (hexpression : Reads bound expression (Whole .assignment))
    (hfail : Fails bound expression (Breaks .assignment)) (hblock : Fails bound block BreaksBlock) :
    Fails (bound + 1) (conditionalLoop expression block) fun w e =>
      ∃ k v, w = k :: v ∧ BreaksWhile v e := by
  have hfails := next_fails fun k => hfail.bind hexpression
    (fun condition => hblock.bind_pure fun body => Stmt.whileLoop condition body k.pos)
    fun _ _ _ rest _ hv => whole_append_iff hv.ne_nil rest
  refine hfails.congr fun w e =>
    exists_congr fun k => exists_congr fun v => and_congr_right fun _ => ?_
  constructor
  · rintro (h | ⟨condition, u, v, rfl, ⟨hu, hstop⟩, h⟩)
    · exact .condition h
    · exact .body hu hstop h
  · intro h
    cases h with
    | condition h => exact Or.inl h
    | body hu hstop h => exact Or.inr ⟨_, _, _, rfl, ⟨hu, hstop⟩, h⟩

/-- A semicolon that may follow is never missed. -/
theorem optionalSemicolon_fails {p : Parser Stmt} {F : List Token → SyntaxError → Prop}
    (hp : Fails bound p F) : Fails bound (optionalSemicolon p) F := by
  refine hp.bind_total fun s ts e rest => ?_
  cases ts with
  | nil => simp [bind_apply, skipIf, pure_apply]
  | cons t ts =>
    rw [bind_apply, skipIf]
    split_ifs <;> simp [pure_apply]

/-! ## The choice by the first token -/

/-- Statements that break off after their keyword, which stands at the given position. -/
def BreaksAfter (pos : Position) : Keyword → List Token → SyntaxError → Prop
  | .letKw => BreaksDeclaration false pos
  | .constKw => BreaksDeclaration true pos
  | .fnKw => BreaksFunction
  | .forKw => BreaksLoop
  | .whileKw => BreaksWhile

section Choice

variable {k : Token} {w ts rest : List Token} {e : SyntaxError}

theorem breaksStatement_keyword_iff {word : Keyword} (hk : k.kind = .keyword word) :
    BreaksStatement (k :: w) e ↔ BreaksAfter k.pos word w e := by
  constructor
  · intro h
    cases h with
    | @declaration constant _ _ _ hk' h =>
      rw [hk] at hk'
      cases constant <;> cases hk' <;> exact h
    | function hk' h | loop hk' h | whileLoop hk' h =>
      rw [hk] at hk'
      cases hk'
      exact h
    | expr hfirst _ => exact absurd hk (hfirst k rfl word)
  · intro h
    cases word with
    | letKw => exact @BreaksStatement.declaration false _ _ _ hk h
    | constKw => exact @BreaksStatement.declaration true _ _ _ hk h
    | fnKw => exact .function hk h
    | forKw => exact .loop hk h
    | whileKw => exact .whileLoop hk h

/-- Without a keyword at their start, statements break off as expressions do. -/
theorem breaksStatement_expr_iff (hk : ∀ word, k.kind ≠ .keyword word) (hw : k :: ts = w ++ rest) :
    BreaksStatement w e ↔ Breaks .assignment w e := by
  constructor
  · intro h
    cases h with
    | declaration hk' _ | function hk' _ | loop hk' _ | whileLoop hk' _ =>
      obtain ⟨rfl, -⟩ := List.cons.inj hw
      exact absurd hk' (hk _)
    | expr _ h => exact h
  · intro h
    refine .expr (fun k' hk' => ?_) h
    have hhead := mem_head?_append hk' rest
    rw [← hw] at hhead
    cases hhead
    exact hk

/-- Breaks of statements with a given first token, by what comes after it. -/
theorem exists_breaksStatement_iff :
    (∃ w, k :: ts = w ++ rest ∧ BreaksStatement w e) ↔
      ∃ w, ts = w ++ rest ∧ BreaksStatement (k :: w) e := by
  constructor
  · rintro ⟨w, hw, h⟩
    cases w with
    | nil => exact absurd rfl h.ne_nil
    | cons k' w =>
      obtain ⟨rfl, rfl⟩ := List.cons.inj hw
      exact ⟨w, rfl, h⟩
  · rintro ⟨w, rfl, h⟩
    exact ⟨k :: w, rfl, h⟩

end Choice

/-- The keyword decides which of the cases is tried, and no other case breaks behind it. -/
theorem statement_fails (hexpression : Reads bound expression (Whole .assignment))
    (hfail : Fails bound expression (Breaks .assignment)) (hblock : Fails bound block BreaksBlock)
    (hbound : bound ≤ passes + 1) :
    Fails bound (statement expression block passes) BreaksStatement := by
  intro ts e rest hlen
  cases ts with
  | nil =>
    refine eq_error_nil_iff (fun e rest h => ?_) fun _ _ => BreaksStatement.ne_nil
    cases h
    rfl
  | cons k ts =>
    have hpeek : ∀ f : Token → Parser Stmt, (peek >>= f) (k :: ts) = f k (k :: ts) := fun f => rfl
    have hlen' : ts.length < bound := Nat.lt_of_succ_lt hlen
    rw [statement, hpeek]
    cases hk : k.kind with
    | keyword word =>
      simp only [exists_breaksStatement_iff, breaksStatement_keyword_iff hk]
      cases word with
      | letKw => exact declaration_eq_error hexpression hfail false hk hlen'
      | constKw => exact declaration_eq_error hexpression hfail true hk hlen'
      | fnKw =>
        have hfunction := functionDeclaration_fails hexpression hfail hblock hbound
        exact (optionalSemicolon_fails hfunction).cons hlen'
      | forKw => exact (optionalSemicolon_fails (countedLoop_fails hblock)).cons hlen'
      | whileKw =>
        have hwhile := conditionalLoop_fails hexpression hfail hblock
        exact (optionalSemicolon_fails hwhile).cons hlen'
    | _ =>
      have hword : ∀ word, k.kind ≠ .keyword word := by simp [hk]
      have hclause := optionalSemicolon_fails (hfail.bind_pure Stmt.expr)
      refine (hclause (k :: ts) e rest hlen).trans (exists_congr fun w => ?_)
      exact and_congr_right fun hw => (breaksStatement_expr_iff hword hw).symm

end Statements

theorem statementWithin_fails (bound : Nat) :
    Fails bound (statementWithin bound) BreaksStatement := by
  induction bound with
  | zero =>
    intro ts e rest hlen
    exact absurd hlen (Nat.not_lt_zero _)
  | succ bound ih =>
    exact statement_fails (expressionWithin_reads (bound + 1)) (expressionWithin_fails (bound + 1))
      (block_fails (statementWithin_reads bound) ih (Nat.le_succ bound)) le_rfl

/-- The parser of programs fails where statements break off. -/
theorem program_eq_error {ts rest : List Token} {e : SyntaxError} :
    program ts = .error e rest ∧ e ≠ .endOfInput ↔
      ∃ w, ts = w ++ rest ∧ BreaksStatements (fun _ => false) w e :=
  statementsUntil_fails (by simp) (statementWithin_reads (ts.length + 1))
    (statementWithin_fails (ts.length + 1)) (Nat.le_succ _) [] ts e rest (Nat.lt_succ_self _)

end Scriptlet.Parser

namespace Scriptlet.Grammar

/-- The tokens before a break can be continued to a program, if this holds of an open list of
parameters. -/
theorem BreaksStatements.continues {stop : Token → Bool} {p : List Token} {t : Token}
    {e : SyntaxError} (h : BreaksStatements stop (p ++ [t]) e) (hparams : ParametersContinue p) :
    ∃ q P, Program.ofTokens (p ++ q) = .ok P := by
  have horder : BreaksInOrder (p ++ [t]) := by
    intro p' t' heq
    obtain ⟨rfl, -⟩ := List.append_inj' heq rfl
    exact hparams
  obtain ⟨p', t', v, heq, ss, hss⟩ := h.viable horder
  obtain ⟨rfl, -⟩ := List.append_inj' heq rfl
  -- the continuation is that of the grammar, with the mark at the end of the text
  obtain ⟨P, hP⟩ := hss.toStrict
  refine ⟨v ++ [filler .endOfFile], P, ?_⟩
  rw [← List.append_assoc]
  exact hP.ofTokens rfl

/-- A rejected text is rejected for its tokens up to one token `t`. With any other tokens after `t`
the text is rejected with the same error at the same place, so no program starts with these tokens.
Without `t`, the tokens before it can be continued to a program, unless the error is that a
parameter is no name or `t` stands inside the parentheses of parameters. What can be continued in
those two cases is told by `continues_iff_parameters`. -/
theorem program_error_earliest {ts rest : List Token} {e : SyntaxError}
    (h : Parser.program ts = .error e rest) (he : e ≠ .endOfInput) :
    ∃ p t, ts = p ++ [t] ++ rest ∧
      (∀ q, Parser.program (p ++ [t] ++ q) = .error e q) ∧
      (∀ ws P, Program.ofTokens ws = .ok P → ¬ p ++ [t] <+: ws) ∧
      (e.cause ≠ .invalidParameter → ¬ InsideParameters p →
        ∃ q P, Program.ofTokens (p ++ q) = .ok P) := by
  obtain ⟨w, rfl, hbreak⟩ := Parser.program_eq_error.mp ⟨h, he⟩
  obtain ⟨p, t, rfl⟩ := (List.eq_nil_or_concat' w).resolve_left hbreak.ne_nil
  have hfixed (q : List Token) : Parser.program (p ++ [t] ++ q) = .error e q :=
    (Parser.program_eq_error.mpr ⟨p ++ [t], rfl, hbreak⟩).1
  refine ⟨p, t, rfl, hfixed, ?_, ?_⟩
  · rintro _ P hP ⟨q, rfl⟩
    obtain ⟨rest', hok⟩ := ofTokens_eq_ok.mp hP
    rw [hfixed q] at hok
    cases hok
  · intro _ hinside
    exact hbreak.continues fun between hopen => absurd hopen.insideParameters hinside

/-- The tokens of `fn f(x) {f(`, the start of a function that calls itself. -/
def openCall : List Token :=
  [⟨.keyword .fnKw, ⟨1, 1⟩, ⟨0, 2⟩⟩, ⟨.identifier "f", ⟨1, 4⟩, ⟨3, 4⟩⟩,
    ⟨.symbol .leftParen, ⟨1, 5⟩, ⟨4, 5⟩⟩, ⟨.identifier "x", ⟨1, 6⟩, ⟨5, 6⟩⟩,
    ⟨.symbol .rightParen, ⟨1, 7⟩, ⟨6, 7⟩⟩, ⟨.symbol .leftBrace, ⟨1, 9⟩, ⟨8, 9⟩⟩,
    ⟨.identifier "f", ⟨1, 10⟩, ⟨9, 10⟩⟩, ⟨.symbol .leftParen, ⟨1, 11⟩, ⟨10, 11⟩⟩]

/-- A semicolon right after these tokens. -/
def straySemicolon : Token :=
  ⟨.symbol .semicolon, ⟨1, 12⟩, ⟨11, 12⟩⟩

/-- A semicolon in place of an argument is rejected whatever comes after it, and the call before it
can be completed, though the parenthesis of the call is open. -/
theorem openCall_semicolon_rejected :
    (∀ q, Parser.program (openCall ++ [straySemicolon] ++ q) =
        .error (.unexpected .expression straySemicolon) q) ∧
      (∀ ws P, Program.ofTokens ws = .ok P → ¬ openCall ++ [straySemicolon] <+: ws) ∧
      ¬ InsideParameters openCall ∧ ∃ q P, Program.ofTokens (openCall ++ q) = .ok P := by
  have herror : Parser.program (openCall ++ [straySemicolon]) =
      .error (.unexpected .expression straySemicolon) [] := rfl
  have hinside : ¬ InsideParameters openCall := by
    rintro ⟨before, k, n, l, between, heq, hk, -, -, hopen⟩
    cases before with
    | nil =>
      obtain ⟨-, -, -, rfl⟩ : _ ∧ _ ∧ _ ∧ _ = between := by simpa [openCall] using heq
      cases hopen
    | cons b before =>
      have hmem : k ∈ openCall.tail := by
        rw [heq]
        simp
      simp only [openCall, List.tail_cons, List.mem_cons, List.not_mem_nil, or_false] at hmem
      rcases hmem with rfl | rfl | rfl | rfl | rfl | rfl | rfl <;> cases hk
  obtain ⟨p, t', heq, hfixed, hnone, hviable⟩ := program_error_earliest herror
    (Parser.unexpected_ne_endOfInput (by simp) straySemicolon)
  rw [List.append_nil] at heq
  obtain ⟨rfl, ht⟩ := List.append_inj' heq rfl
  cases ht
  exact ⟨hfixed, hnone, hinside, hviable (by simp [SyntaxError.unexpected]) hinside⟩

end Scriptlet.Grammar
