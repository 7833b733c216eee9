import Scriptlet.Proofs.Number.Count
import Scriptlet.Proofs.Parser.Expression

/-! # What the parsers of statements read

Statements are read as the strict grammar derives them. A statement ends at its semicolon, or where
no semicolon comes next and nothing is left to read into it; `Ends` says so of its tokens and the
rest. Parameters are read as expressions and then narrowed to names, which leaves names inside
parentheses.
-/

namespace Scriptlet.Grammar

/-! ## Parameters as expressions -/

theorem Derives.toLevel {m n : Nat} {e : Expr} {w : List Token} (h : Derives (.level m) e w)
    (hle : m ≤ n) : Derives (.level n) e w := by
  induction n, hle using Nat.le_induction with
  | base => exact h
  | succ n _ ih => simpa using Derives.operators ih .done

theorem Derives.toCall {e : Expr} {w : List Token} (h : Derives .primary e w) :
    Derives .call e w := by
  simpa using Derives.calls h .done

theorem Derives.callToLevel {n : Nat} {e : Expr} {w : List Token} (h : Derives .call e w) :
    Derives (.level n) e w :=
  (Derives.positive h).toLevel (Nat.zero_le n)

theorem Derives.primaryToAssignment {e : Expr} {w : List Token} (h : Derives .primary e w) :
    Derives .assignment e w :=
  .operand h.toCall.callToLevel

/-- A chain is empty or makes an operation. -/
theorem Chain.result {n : Nat} {left e : Expr} {v : List Token} (h : Chain n left e v) :
    (v = [] ∧ e = left) ∨ ∃ op l r p, e = .binary op l r p := by
  induction h using Chain.induction with
  | done e => exact Or.inl ⟨rfl, rfl⟩
  | step _ _ _ _ ih =>
    rcases ih with ⟨-, rfl⟩ | hbinary
    · exact Or.inr ⟨_, _, _, _, rfl⟩
    · exact Or.inr hbinary

/-- Argument lists are none or make a call. -/
theorem Calls.result {callee e : Expr} {v : List Token} (h : Calls callee e v) :
    (v = [] ∧ e = callee) ∨ ∃ f args p, e = .call f args p := by
  induction h using Calls.induction with
  | done e => exact Or.inl ⟨rfl, rfl⟩
  | step _ _ _ ih =>
    rcases ih with ⟨-, rfl⟩ | hcall
    · exact Or.inr ⟨_, _, _, rfl⟩
    · exact Or.inr hcall

theorem Param.derives {x : String} {w : List Token} (h : Param x w) :
    ∃ p, Derives .assignment (.identifier x p) w := by
  induction h with
  | name ht => exact ⟨_, (Derives.identifier ht).primaryToAssignment⟩
  | paren hl _ hr ih =>
    obtain ⟨p, hp⟩ := ih
    exact ⟨p, (Derives.paren hl hp hr).primaryToAssignment⟩

/-- An expression that is a name is written as a parameter is. -/
theorem Derives.param {slot : Slot} {e : Expr} {x : String} {p : Position} {w : List Token} :
    Derives slot e w → e = .identifier x p → Param x w
  | .operand h, he | .positive h, he => h.param he
  | .operators h hchain, he => by
    rcases hchain.result with ⟨hv, hleft⟩ | ⟨_, _, _, _, hbinary⟩
    · rw [hv, List.append_nil]
      exact h.param (hleft ▸ he)
    · rw [hbinary] at he
      cases he
  | .calls h hcalls, he => by
    rcases hcalls.result with ⟨hv, hcallee⟩ | ⟨_, _, _, hcall⟩
    · rw [hv, List.append_nil]
      exact h.param (hcallee ▸ he)
    · rw [hcall] at he
      cases he
  | .identifier ht, he => by
    cases he
    exact .name ht
  | .paren hl h hr, he => .paren hl (h.param he) hr

theorem paramNames_cons_eq_ok {e : Expr} {es : List Expr} {xs : List String} :
    Parser.paramNames (e :: es) = .ok xs ↔
      ∃ x p ys, e = .identifier x p ∧ Parser.paramNames es = .ok ys ∧ xs = x :: ys := by
  cases e with
  | identifier x p =>
    rw [Parser.paramNames]
    cases Parser.paramNames es with
    | ok ys => simp [eq_comm]
    | error err => simp
  | _ => simp [Parser.paramNames]

/-- Parameter lists are the argument lists whose expressions are names. -/
theorem params_iff {xs : List String} {w : List Token} :
    Params xs w ↔ ∃ es, Arguments es w ∧ Parser.paramNames es = .ok xs := by
  constructor
  · intro h
    induction h with
    | none hr => exact ⟨[], .none hr, rfl⟩
    | last hx hr =>
      obtain ⟨p, hp⟩ := hx.derives
      exact ⟨_, .last hp hr, rfl⟩
    | more hx hc _ ih =>
      obtain ⟨p, hp⟩ := hx.derives
      obtain ⟨es, hes, hnames⟩ := ih
      cases es with
      | nil => cases hnames
      | cons e es =>
        refine ⟨_, .more hp hc hes, ?_⟩
        rw [Parser.paramNames, hnames]
  · rintro ⟨es, hes, hnames⟩
    exact ofArguments hes hnames
where
  ofArguments {es : List Expr} {xs : List String} {w : List Token} :
      Arguments es w → Parser.paramNames es = .ok xs → Params xs w
    | .none hr, hnames => by
      cases hnames
      exact .none hr
    | .last h hr, hnames => by
      obtain ⟨x, p, ys, rfl, hys, rfl⟩ := paramNames_cons_eq_ok.mp hnames
      cases hys
      exact .last (h.param rfl) hr
    | .more h hc hes, hnames => by
      obtain ⟨x, p, ys, rfl, hys, rfl⟩ := paramNames_cons_eq_ok.mp hnames
      obtain ⟨y, -, zs, -, -, rfl⟩ := paramNames_cons_eq_ok.mp hys
      exact .more (h.param rfl) hc (ofArguments hes hys)

/-! ## Where statements end -/

/-- The tokens of a clause cannot be read on into the rest. -/
def Closed (w rest : List Token) : Prop :=
  (∃ t ∈ w.getLast?, t.kind = .symbol .rightBrace) ∨ Stops .assignment rest

/-- The tokens of a statement end before the rest. -/
def Ends (w rest : List Token) : Prop :=
  (∃ t ∈ w.getLast?, t.kind = .symbol .semicolon) ∨
    (∀ t ∈ rest.head?, t.kind ≠ .symbol .semicolon) ∧ Closed w rest

/-- A place where a statement may end: a statement, a closing brace or the end of the text comes
next. -/
def Boundary (rest : List Token) : Prop :=
  ∀ t ∈ rest.head?, OpensStatement t.kind ∨ t.kind = .symbol .rightBrace ∨ t.kind = .endOfFile

/-- What may come at a boundary continues an expression only if it is a parenthesis, and is no
semicolon. -/
theorem boundary_kind {k : Token.Kind}
    (h : OpensStatement k ∨ k = .symbol .rightBrace ∨ k = .endOfFile) :
    k ≠ .symbol .semicolon ∧
      (Slot.assignment.ContinuedBy k → k = .symbol .leftParen) := by
  rcases h with h | rfl | rfl
  · cases k with
    | symbol s =>
      cases s <;> first | exact h.elim | skip
      · exact ⟨by simp, by rintro (hk | hk | hk) <;> cases hk⟩
      · exact ⟨by simp, fun _ => rfl⟩
    | _ => exact ⟨by simp, by rintro (hk | hk | hk) <;> cases hk⟩
  · exact ⟨by simp, by rintro (hk | hk | hk) <;> cases hk⟩
  · exact ⟨by simp, by rintro (hk | hk | hk) <;> cases hk⟩

/-- Tokens that are apart from the rest end before it, if a statement may end there. -/
theorem ends_of_apart {w rest : List Token} (hboundary : Boundary rest) (hapart : Apart w rest) :
    Ends w rest := by
  have hsemicolon : ∀ t ∈ rest.head?, t.kind ≠ .symbol .semicolon :=
    fun t ht => (boundary_kind (hboundary t ht)).1
  by_cases hstop : Stops .assignment rest
  · exact Or.inr ⟨hsemicolon, Or.inr hstop⟩
  · obtain ⟨t, ht, hcontinued⟩ : ∃ t ∈ rest.head?, Slot.assignment.ContinuedBy t.kind := by
      simpa [Stops] using hstop
    have hparen := (boundary_kind (hboundary t ht)).2 hcontinued
    obtain ⟨l, hl, hk | hk⟩ := hapart t ht hparen
    · exact Or.inl ⟨l, hl, hk⟩
    · exact Or.inr ⟨hsemicolon, Or.inl ⟨l, hl, hk⟩⟩

/-- Tokens that end before others are apart from them. -/
theorem Ends.apart {w v rest : List Token} (h : Ends w (v ++ rest)) : Apart w v := by
  intro t ht hparen
  rcases h with ⟨l, hl, hk⟩ | ⟨-, ⟨l, hl, hk⟩ | hstop⟩
  · exact ⟨l, hl, Or.inl hk⟩
  · exact ⟨l, hl, Or.inr hk⟩
  · exact absurd (Or.inl hparen) (hstop t (mem_head?_append ht rest))

/-- A clause is closed before a semicolon. -/
theorem Clause.closed_semicolon {strict : Bool} {s : Stmt} {w : List Token} {t : Token}
    (h : Clause strict s w) (ht : t.kind = .symbol .semicolon) (rest : List Token) :
    Closed w (t :: rest) := by
  rcases h.getLast with hbrace | -
  · exact Or.inl hbrace
  · exact Or.inr (stops_separator _ ht rfl rest)

/-- Tokens that end with a block are closed before all others. -/
theorem Block.closed_append {strict : Bool} {body : List Stmt} {v : List Token}
    (h : Block strict body v) (u rest : List Token) : Closed (u ++ v) rest := by
  obtain ⟨t, ht, hbrace⟩ := h.getLast
  exact Or.inl ⟨t, mem_getLast?_append ht u, hbrace⟩

/-- A clause does not end with a semicolon. -/
theorem Clause.getLast_ne_semicolon {strict : Bool} {s : Stmt} {w : List Token}
    (h : Clause strict s w) : ∀ t ∈ w.getLast?, t.kind ≠ .symbol .semicolon := by
  intro t ht hk
  rcases h.getLast with ⟨l, hl, hbrace⟩ | ⟨e, -, he⟩
  · obtain rfl := Option.mem_unique ht hl
    rw [hk] at hbrace
    cases hbrace
  · obtain ⟨l, hl, hcloses⟩ := he.getLast
    obtain rfl := Option.mem_unique ht hl
    exact hcloses.not_end.1 hk

/-- An expression does not open with a keyword. -/
theorem Derives.head_ne_keyword {slot : Slot} {e : Expr} {k : Token} {w ts rest : List Token}
    {word : Keyword} (h : Derives slot e w) (hw : k :: ts = w ++ rest) :
    k.kind ≠ .keyword word := by
  intro hk
  obtain ⟨t, ht, hopens⟩ := h.head
  have hhead := mem_head?_append ht rest
  rw [← hw] at hhead
  cases hhead
  rw [hk] at hopens
  exact hopens

/-- A clause does not open with the keyword of a declaration. -/
theorem Clause.head_ne_declaration {strict : Bool} {s : Stmt} {k : Token} {w ts rest : List Token}
    (h : Clause strict s w) (hw : k :: ts = w ++ rest) (constant : Bool) :
    k.kind ≠ .keyword (declarationKeyword constant) := by
  cases h with
  | function hk _ _ _ _ | loop hk _ _ _ | whileLoop hk _ _ =>
    obtain ⟨rfl, -⟩ := List.cons.inj hw
    rw [hk]
    cases constant <;> simp [declarationKeyword]
  | expr he => exact he.head_ne_keyword hw

end Scriptlet.Grammar

namespace Scriptlet.Parser

open Grammar

/-! ## Lists of statements -/

/-- A statement, and a rest before which it ends. -/
def WholeStatement (s : Stmt) (w rest : List Token) : Prop :=
  Statement true s w ∧ Ends w rest

variable {bound passes : Nat} {stop : Token → Bool}

theorem atEnd_iff {ts : List Token} : atEnd ts = true ↔ ∀ t ∈ ts.head?, t.kind = .endOfFile := by
  cases ts with
  | nil => simp [atEnd]
  | cons t ts =>
    rw [atEnd]
    cases hk : t.kind <;> simp [hk]

/-- Whether a list of statements ends before the tokens. -/
def stopsBefore (stop : Token → Bool) (rest : List Token) : Bool :=
  atEnd rest || rest.head?.any stop

/-- Lists of statements end before a closing brace or at the end of the text. -/
theorem stopsBefore_kind (hstop : ∀ t, stop t = true → t.kind = .symbol .rightBrace)
    {rest : List Token} (h : stopsBefore stop rest = true) :
    ∀ t ∈ rest.head?, t.kind = .symbol .rightBrace ∨ t.kind = .endOfFile := by
  intro t ht
  rw [stopsBefore, Bool.or_eq_true, atEnd_iff] at h
  rcases h with h | h
  · exact Or.inr (h t ht)
  · rw [(ht : _ = _)] at h
    exact Or.inl (hstop t (by simpa using h))

/-- A list of statements does not end before a statement. -/
theorem stopsBefore_statement (hstop : ∀ t, stop t = true → t.kind = .symbol .rightBrace)
    {s : Stmt} {u : List Token} (h : Statement true s u) (rest : List Token) :
    stopsBefore stop (u ++ rest) = false := by
  obtain ⟨t, ht, hopens⟩ := h.head
  have hhead : (u ++ rest).head? = some t := mem_head?_append ht rest
  rw [Bool.eq_false_iff]
  intro hbefore
  rcases stopsBefore_kind hstop hbefore t hhead with hk | hk <;> rw [hk] at hopens <;> exact hopens

/-- The first statement of a list ends before the others and the rest. -/
theorem ends_of_cons {u v rest : List Token} {ss : List Stmt} (hv : Statements true ss v)
    (hapart : Apart u v)
    (hrest : ∀ t ∈ rest.head?, t.kind = .symbol .rightBrace ∨ t.kind = .endOfFile) :
    Ends u (v ++ rest) := by
  cases hv with
  | nil =>
    refine ends_of_apart (fun t ht => Or.inr (hrest t ht)) fun t ht hparen => ?_
    rcases hrest t ht with hk | hk <;> rw [hk] at hparen <;> cases hparen
  | @cons _ _ u' v' hs =>
    obtain ⟨t, ht, hopens⟩ := hs.head
    have hhead := mem_head?_append (mem_head?_append ht v') rest
    refine ends_of_apart ?_ ?_
    · intro t' ht'
      obtain rfl := Option.mem_unique ht' hhead
      exact Or.inl hopens
    · intro t' ht'
      obtain rfl := Option.mem_unique ht' hhead
      exact hapart t' (mem_head?_append ht v')

theorem statementsUntil_reads {statement : Parser Stmt}
    (hstop : ∀ t, stop t = true → t.kind = .symbol .rightBrace)
    (hstatement : Reads bound statement WholeStatement) (hbound : bound ≤ passes + 1)
    (before : List Stmt) :
    Reads bound (statementsUntil stop statement passes before) fun ss w rest =>
      ∃ new, ss = before.reverse ++ new ∧ Statements true new w ∧ stopsBefore stop rest = true := by
  induction passes generalizing bound before with
  | zero =>
    intro ts ss rest hlen
    obtain rfl : ts = [] := List.length_eq_zero_iff.mp (by omega)
    simp only [statementsUntil, pure_eq_ok]
    constructor
    · rintro ⟨rfl, rfl⟩
      exact ⟨[], rfl, [], by simp, .nil, rfl⟩
    · rintro ⟨w, hw, new, rfl, hnew, -⟩
      cases hnew with
      | nil => exact ⟨by simp, hw⟩
      | cons hs _ _ =>
        have hpos := hs.length_pos
        have hnil := congrArg List.length hw
        simp only [List.length_nil, List.length_append] at hnil
        omega
  | succ passes ih =>
    intro ts ss rest hlen
    have hrec := ih (hstatement.mono (Nat.sub_le bound 1)) (by omega)
    rw [statementsUntil]
    change (if stopsBefore stop ts = true then _ else _) = _ ↔ _
    by_cases hbefore : stopsBefore stop ts = true
    · rw [if_pos hbefore]
      constructor
      · intro h
        obtain ⟨rfl, rfl⟩ := Reply.ok.inj h
        exact ⟨[], rfl, [], by simp, .nil, hbefore⟩
      · rintro ⟨w, rfl, new, rfl, hnew, -⟩
        cases hnew with
        | nil => simp
        | cons hs _ _ =>
          rw [List.append_assoc, stopsBefore_statement hstop hs] at hbefore
          cases hbefore
    · rw [if_neg hbefore]
      constructor
      · intro h
        split at h
        · next s mid hs =>
          obtain ⟨u, rfl, hu, hends⟩ := (hstatement _ _ _ hlen).mp hs
          -- a statement takes a token, so the passes that are left suffice
          have hpos := hu.length_pos
          simp only [List.length_append] at hlen
          obtain ⟨v, rfl, new, rfl, hnew, hend⟩ := (hrec _ _ _ _ (by omega)).mp h
          exact ⟨u ++ v, by simp, s :: new, by simp, .cons hu hnew fun _ => hends.apart, hend⟩
        · cases h
      · rintro ⟨w, rfl, new, rfl, hnew, hend⟩
        cases hnew with
        | nil => exact absurd hend hbefore
        | @cons s ss u v hs hss hapart =>
          -- the strict grammar keeps the first statement from being read on into the next
          have hpos := hs.length_pos
          have hends := ends_of_cons hss (hapart rfl) (stopsBefore_kind hstop hend)
          rw [List.append_assoc] at hlen ⊢
          rw [(hstatement _ _ _ hlen).mpr ⟨u, rfl, hs, hends⟩]
          simp only [List.length_append] at hlen
          refine (hrec _ _ _ _ ?_).mpr ⟨v, rfl, ss, by simp, hss, hend⟩
          simp only [List.length_append]
          omega

theorem block_reads {statement : Parser Stmt} (hstatement : Reads bound statement WholeStatement)
    (hbound : bound ≤ passes + 1) :
    Reads (bound + 1) (block statement passes) fun body w _ => Block true body w := by
  have hstop : ∀ t, isSymbol .rightBrace t = true → t.kind = .symbol .rightBrace :=
    fun t => isSymbol_iff.mp
  have hlist := statementsUntil_reads hstop hstatement hbound []
  have hinner := hlist.bind fun body => (expect_reads .rightBrace).bind fun _ => pure_reads body
  have hreads := (expect_reads .leftBrace).bind_of_le (fun _ => hinner) (by
    rintro - u rest ⟨l, -, rfl⟩
    exact Nat.le_refl _)
  refine hreads.congr fun body w rest => ?_
  constructor
  · rintro ⟨-, u, v, rfl, ⟨l, hl, rfl⟩, body', w, v', rfl, ⟨new, rfl, hnew, -⟩, -, u', v'', rfl,
      ⟨r, hr, rfl⟩, rfl, rfl⟩
    exact .braces hl hnew hr
  · intro hbody
    cases hbody with
    | @braces _ l r w hl hw hr =>
      have hend : stopsBefore (isSymbol .rightBrace) (r :: rest) = true := by
        simp [stopsBefore, isSymbol_iff, hr]
      exact ⟨(), [l], w ++ [r], rfl, ⟨l, hl, rfl⟩, body, w, [r], rfl, ⟨body, rfl, hw, hend⟩, (),
        [r], [], rfl, ⟨r, hr, rfl⟩, rfl, rfl⟩

/-! ## Statements and programs -/

section Parts

variable {expression : Parser Expr} {block : Parser (List Stmt)} {k : Token} {ts rest : List Token}
  {s : Stmt}

theorem name_eq_ok {wrong : Token.Kind → SyntaxError.Cause} {x : String} :
    name wrong ts = .ok x rest ↔ ∃ t, t.kind = .identifier x ∧ ts = t :: rest := by
  simp only [name, bind_eq_ok, next_eq_ok]
  constructor
  · rintro ⟨t, mid, rfl, h⟩
    cases hk : t.kind with
    | identifier y =>
      simp only [hk, pure_eq_ok] at h
      exact ⟨t, by rw [hk, h.1], by rw [h.2]⟩
    | _ =>
      rw [hk] at h
      exact (fail_ne_ok.mp h).elim
  · rintro ⟨t, hk, rfl⟩
    refine ⟨t, rest, rfl, ?_⟩
    rw [hk]
    rfl

/-- The value of a declaration is read from its sign to the semicolon. -/
theorem initializer_reads (hexpression : Reads bound expression (Whole .assignment))
    (wrong : Token → SyntaxError) (declared : Expr → Stmt) :
    Reads bound (expect .assign >>= fun _ => expression >>= fun e =>
      expectOr .semicolon wrong >>= fun _ => pure (declared e)) fun s w _ =>
        ∃ a u t e, w = a :: (u ++ [t]) ∧ a.kind = .symbol .assign ∧ Derives .assignment e u ∧
          t.kind = .symbol .semicolon ∧ declared e = s := by
  have hreads := (expect_reads .assign).bind fun _ => hexpression.bind fun e =>
    (expectOr_reads .semicolon wrong).bind fun _ => pure_reads (declared e)
  refine hreads.congr fun s w rest => ?_
  constructor
  · rintro ⟨-, v₀, v, rfl, ⟨a, ha, rfl⟩, e, u, v', rfl, ⟨hu, -⟩, -, v₁, v₂, rfl, ⟨t, ht, rfl⟩, rfl,
      rfl⟩
    exact ⟨a, u, t, e, rfl, ha, hu, ht, rfl⟩
  · rintro ⟨a, u, t, e, rfl, ha, hu, ht, rfl⟩
    have hstop : Stops .assignment (t :: rest) := stops_separator _ ht rfl rest
    exact ⟨(), [a], u ++ [t], rfl, ⟨a, ha, rfl⟩, e, u, [t], rfl, ⟨hu, hstop⟩, (), [t], [], rfl,
      ⟨t, ht, rfl⟩, rfl, rfl⟩

/-- A declaration is read with its semicolon. -/
theorem declaration_eq_ok (hexpression : Reads bound expression (Whole .assignment))
    {constant : Bool} (hk : k.kind = .keyword (declarationKeyword constant))
    (hlen : (k :: ts).length < bound) :
    declaration expression (k :: ts) = .ok s rest ↔
      ∃ w, k :: ts = w ++ rest ∧ WholeStatement s w rest := by
  have hinitializer := initializer_reads hexpression
  simp only [declaration, bind_eq_ok, next_eq_ok, name_eq_ok]
  constructor
  · rintro ⟨k', mid, hmid, x, mid', ⟨n, hn, rfl⟩, skipped, mid'', hskip, h⟩
    obtain ⟨rfl, rfl⟩ := List.cons.inj hmid
    cases skipped with
    | true =>
      obtain ⟨t, ht, rfl⟩ := skipIf_eq_true.mp hskip
      rw [hk] at h
      cases constant with
      | true => exact (fail_ne_ok.mp h).elim
      | false =>
        obtain ⟨rfl, rfl⟩ := pure_eq_ok.mp h
        exact ⟨[k, n, t], rfl, .unset hk hn ht, Or.inl ⟨t, rfl, ht⟩⟩
    | false =>
      obtain ⟨rfl, -⟩ := skipIf_eq_false.mp hskip
      simp only [List.length_cons] at hlen
      obtain ⟨v, rfl, a, w, t, e, rfl, ha, hw, ht, hs⟩ :=
        (hinitializer _ _ _ _ _ (by omega)).mp h
      -- the flag of the declaration is that of its keyword
      obtain rfl : .declare x (some e) constant k.pos = s := by
        rw [← hs, hk]
        cases constant <;> rfl
      refine ⟨k :: n :: a :: (w ++ [t]), rfl, .set hk hn ha hw ht, Or.inl ⟨t, ?_, ht⟩⟩
      exact mem_getLast?_append rfl (k :: n :: a :: w)
  · rintro ⟨w, hw, hs, -⟩
    cases hs with
    | @unset x k' n t hk' hn ht =>
      rw [List.cons_append, List.cons.injEq] at hw
      obtain ⟨rfl, rfl⟩ := hw
      obtain rfl : constant = false := by
        rw [hk] at hk'
        cases constant
        · rfl
        · cases hk'
      refine ⟨k, _, rfl, x, _, ⟨n, hn, rfl⟩, true, _, skipIf_eq_true.mpr ⟨t, ht, rfl⟩, ?_⟩
      rw [hk]
      rfl
    | @set x constant' e k' n a t w hk' hn ha he ht =>
      rw [List.cons_append, List.cons.injEq] at hw
      obtain ⟨rfl, rfl⟩ := hw
      obtain rfl : constant = constant' := by
        rw [hk] at hk'
        cases constant <;> cases constant' <;> first | rfl | cases hk'
      refine ⟨k, _, rfl, x, a :: (w ++ [t]) ++ rest, ⟨n, hn, rfl⟩, false, _,
        skipIf_eq_false.mpr ⟨rfl, by simp [ha]⟩, ?_⟩
      simp only [List.cons_append, List.length_cons] at hlen
      refine (hinitializer _ _ _ _ _ ?_).mpr ⟨_, rfl, a, w, t, e, rfl, ha, he, ht, ?_⟩
      · simp only [List.cons_append, List.length_cons]
        omega
      · rw [hk]
        cases constant <;> rfl
    | bare hs => exact absurd hk (hs.head_ne_declaration hw constant)
    | ended hs _ =>
      rw [List.append_assoc] at hw
      exact absurd hk (hs.head_ne_declaration hw constant)

/-- A parser reads clauses from a list of tokens. -/
def ReadsClause (p : Parser Stmt) (ts : List Token) : Prop :=
  ∀ s rest, p ts = .ok s rest ↔ ∃ w, ts = w ++ rest ∧ Clause true s w ∧ Closed w rest

theorem functionDeclaration_reads (hexpression : Reads bound expression (Whole .assignment))
    (hblock : Reads bound block fun body w _ => Block true body w) (hbound : bound ≤ passes + 1)
    (hk : k.kind = .keyword .fnKw) (hlen : (k :: ts).length < bound) :
    ReadsClause (functionDeclaration expression block passes) (k :: ts) := by
  intro s rest
  have hlist : Reads bound (commaList expression passes) fun es w _ => Arguments es w :=
    commaList_reads hexpression hbound
  simp only [functionDeclaration, bind_eq_ok, next_eq_ok, name_eq_ok, expectOr_eq_ok]
  constructor
  · rintro ⟨k', mid, hmid, x, mid', ⟨n, hn, rfl⟩, -, mid'', ⟨l, hl, rfl⟩, es, mid''', hes, h⟩
    obtain ⟨rfl, rfl⟩ := List.cons.inj hmid
    simp only [List.length_cons] at hlen
    obtain ⟨u, rfl, hu⟩ := (hlist _ _ _ (by omega)).mp hes
    cases hnames : paramNames es with
    | error e =>
      rw [hnames] at h
      exact (fail_ne_ok.mp h).elim
    | ok xs =>
      simp only [hnames, bind_eq_ok, pure_eq_ok] at h
      obtain ⟨body, mid, hbody, rfl, rfl⟩ := h
      simp only [List.length_append] at hlen
      obtain ⟨v, rfl, hv⟩ := (hblock _ _ _ (by omega)).mp hbody
      have hclause := Clause.function hk hn hl (params_iff.mpr ⟨es, hu, hnames⟩) hv
      exact ⟨k :: n :: l :: (u ++ v), by simp, hclause, hv.closed_append (k :: n :: l :: u) _⟩
  · rintro ⟨w, hw, hs, -⟩
    cases hs with
    | @function x xs body k' n l u v hk' hn hl hu hv =>
      rw [List.cons_append, List.cons.injEq] at hw
      obtain ⟨rfl, rfl⟩ := hw
      obtain ⟨es, hes, hnames⟩ := params_iff.mp hu
      simp only [List.length_cons, List.cons_append, List.length_append] at hlen
      refine ⟨k, _, rfl, x, _, ⟨n, hn, rfl⟩, (), u ++ (v ++ rest), ⟨l, hl, by simp⟩, es, v ++ rest,
        ?_, ?_⟩
      · refine (hlist _ _ _ ?_).mpr ⟨u, rfl, hes⟩
        simp only [List.length_append]
        omega
      · simp only [hnames, bind_eq_ok, pure_eq_ok]
        refine ⟨body, rest, (hblock _ _ _ ?_).mpr ⟨v, rfl, hv⟩, rfl, rfl⟩
        simp only [List.length_append]
        omega
    | loop hk' _ _ _ | whileLoop hk' _ _ =>
      obtain ⟨rfl, -⟩ := List.cons.inj hw
      rw [hk] at hk'
      cases hk'
    | expr he => exact absurd hk (he.head_ne_keyword hw)

theorem countedLoop_reads (hblock : Reads bound block fun body w _ => Block true body w)
    (hk : k.kind = .keyword .forKw) (hlen : (k :: ts).length < bound) :
    ReadsClause (countedLoop block) (k :: ts) := by
  intro s rest
  simp only [countedLoop, bind_eq_ok, next_eq_ok]
  constructor
  · rintro ⟨k', mid, hmid, n, mid', rfl, h⟩
    obtain ⟨rfl, rfl⟩ := List.cons.inj hmid
    cases hn : n.kind with
    | number x =>
      simp only [hn] at h
      cases hcount : Number.count? x with
      | none =>
        rw [hcount] at h
        exact (fail_ne_ok.mp h).elim
      | some count =>
        simp only [hcount, bind_eq_ok, pure_eq_ok] at h
        obtain ⟨body, mid, hbody, rfl, rfl⟩ := h
        simp only [List.length_cons] at hlen
        obtain ⟨v, rfl, hv⟩ := (hblock _ _ _ (by omega)).mp hbody
        have hclause := Clause.loop hk hn ((Number.count?_eq_some_iff _ _).mp hcount) hv
        exact ⟨k :: n :: v, by simp, hclause, hv.closed_append [k, n] _⟩
    | _ =>
      rw [hn] at h
      exact (fail_ne_ok.mp h).elim
  · rintro ⟨w, hw, hs, -⟩
    cases hs with
    | @loop x count body k' n v hk' hn hcount hv =>
      rw [List.cons_append, List.cons.injEq] at hw
      obtain ⟨rfl, rfl⟩ := hw
      refine ⟨k, _, rfl, n, v ++ rest, rfl, ?_⟩
      simp only [hn, (Number.count?_eq_some_iff _ _).mpr hcount, bind_eq_ok, pure_eq_ok]
      simp only [List.length_cons, List.cons_append] at hlen
      exact ⟨body, rest, (hblock _ _ _ (by omega)).mpr ⟨v, rfl, hv⟩, rfl, rfl⟩
    | function hk' _ _ _ _ | whileLoop hk' _ _ =>
      obtain ⟨rfl, -⟩ := List.cons.inj hw
      rw [hk] at hk'
      cases hk'
    | expr he => exact absurd hk (he.head_ne_keyword hw)

theorem conditionalLoop_reads (hexpression : Reads bound expression (Whole .assignment))
    (hblock : Reads bound block fun body w _ => Block true body w)
    (hk : k.kind = .keyword .whileKw) (hlen : (k :: ts).length < bound) :
    ReadsClause (conditionalLoop expression block) (k :: ts) := by
  intro s rest
  simp only [conditionalLoop, bind_eq_ok, next_eq_ok, pure_eq_ok]
  constructor
  · rintro ⟨k', mid, hmid, e, mid', he, body, mid'', hbody, rfl, rfl⟩
    obtain ⟨rfl, rfl⟩ := List.cons.inj hmid
    simp only [List.length_cons] at hlen
    obtain ⟨u, rfl, hu, -⟩ := (hexpression _ _ _ (by omega)).mp he
    simp only [List.length_append] at hlen
    obtain ⟨v, rfl, hv⟩ := (hblock _ _ _ (by omega)).mp hbody
    exact ⟨k :: (u ++ v), by simp, .whileLoop hk hu hv, hv.closed_append (k :: u) _⟩
  · rintro ⟨w, hw, hs, -⟩
    cases hs with
    | @whileLoop e body k' u v hk' hu hv =>
      rw [List.cons_append, List.cons.injEq] at hw
      obtain ⟨rfl, rfl⟩ := hw
      simp only [List.length_cons, List.length_append] at hlen
      have hstop : Stops .assignment (v ++ rest) := by
        cases hv with
        | braces hl _ _ => exact stops_separator _ hl rfl _
      refine ⟨k, _, rfl, e, v ++ rest, ?_, body, rest, ?_, rfl, rfl⟩
      · refine (hexpression _ _ _ ?_).mpr ⟨u, by simp, hu, hstop⟩
        simp only [List.length_append]
        omega
      · refine (hblock _ _ _ ?_).mpr ⟨v, rfl, hv⟩
        simp only [List.length_append]
        omega
    | function hk' _ _ _ _ | loop hk' _ _ _ =>
      obtain ⟨rfl, -⟩ := List.cons.inj hw
      rw [hk] at hk'
      cases hk'
    | expr he => exact absurd hk (he.head_ne_keyword hw)

/-- An expression at the start of a list without a keyword there. -/
theorem expressionStatement_reads (hexpression : Reads bound expression (Whole .assignment))
    (hk : ∀ word, k.kind ≠ .keyword word) (hlen : (k :: ts).length < bound) :
    ReadsClause (expression >>= fun e => pure (.expr e)) (k :: ts) := by
  intro s rest
  simp only [bind_eq_ok, pure_eq_ok]
  constructor
  · rintro ⟨e, mid, he, rfl, rfl⟩
    obtain ⟨w, hw, hderives, hstop⟩ := (hexpression _ _ _ hlen).mp he
    exact ⟨w, hw, .expr hderives, Or.inr hstop⟩
  · rintro ⟨w, hw, hs, hclosed⟩
    cases hs with
    | @expr e _ he =>
      refine ⟨e, rest, (hexpression _ _ _ hlen).mpr ⟨w, hw, he, ?_⟩, rfl, rfl⟩
      rcases hclosed with ⟨t, ht, hbrace⟩ | hstop
      · obtain ⟨t', ht', hcloses⟩ := he.getLast
        obtain rfl := Option.mem_unique ht ht'
        exact absurd hbrace hcloses.not_end.2
      · exact hstop
    | function hk' _ _ _ _ | loop hk' _ _ _ | whileLoop hk' _ _ =>
      obtain ⟨rfl, -⟩ := List.cons.inj hw
      exact absurd hk' (hk _)

/-- After a clause, a semicolon is read if there is one. -/
theorem optionalSemicolon_eq_ok {p : Parser Stmt} (hp : ReadsClause p (k :: ts))
    (hk : ∀ constant, k.kind ≠ .keyword (declarationKeyword constant)) :
    optionalSemicolon p (k :: ts) = .ok s rest ↔
      ∃ w, k :: ts = w ++ rest ∧ WholeStatement s w rest := by
  simp only [optionalSemicolon, bind_eq_ok, pure_eq_ok]
  constructor
  · rintro ⟨s', mid, hs, skipped, mid', hskip, rfl, rfl⟩
    obtain ⟨w, hw, hclause, hclosed⟩ := (hp _ _).mp hs
    cases skipped with
    | true =>
      obtain ⟨t, ht, rfl⟩ := skipIf_eq_true.mp hskip
      refine ⟨w ++ [t], by simp [hw], .ended hclause ht, Or.inl ⟨t, ?_, ht⟩⟩
      exact mem_getLast?_append rfl w
    | false =>
      obtain ⟨rfl, hrest⟩ := skipIf_eq_false.mp hskip
      exact ⟨w, hw, .bare hclause, Or.inr ⟨hrest, hclosed⟩⟩
  · rintro ⟨w, hw, hs, hends⟩
    cases hs with
    | unset hk' _ _ =>
      obtain ⟨rfl, -⟩ := List.cons.inj hw
      exact absurd hk' (hk false)
    | set hk' _ _ _ _ =>
      obtain ⟨rfl, -⟩ := List.cons.inj hw
      exact absurd hk' (hk _)
    | bare hclause =>
      -- a clause has no semicolon at its end, so none comes next
      rcases hends with ⟨t, ht, hsemicolon⟩ | ⟨hrest, hclosed⟩
      · exact absurd hsemicolon (hclause.getLast_ne_semicolon t ht)
      · exact ⟨s, rest, (hp _ _).mpr ⟨w, hw, hclause, hclosed⟩, false, rest,
          skipIf_eq_false.mpr ⟨rfl, hrest⟩, rfl, rfl⟩
    | @ended _ w t hclause ht =>
      refine ⟨s, t :: rest, (hp _ _).mpr ⟨w, by simp [hw], hclause, ?_⟩, true, rest,
        skipIf_eq_true.mpr ⟨t, ht, rfl⟩, rfl, rfl⟩
      exact hclause.closed_semicolon ht rest

end Parts

theorem statement_reads {expression : Parser Expr} {block : Parser (List Stmt)}
    (hexpression : Reads bound expression (Whole .assignment))
    (hblock : Reads bound block fun body w _ => Block true body w) (hbound : bound ≤ passes + 1) :
    Reads bound (statement expression block passes) WholeStatement := by
  intro ts s rest hlen
  cases ts with
  | nil =>
    have hpeek : ∀ t mid, peek [] ≠ .ok t mid := fun t mid h => by cases (peek_eq_ok.mp h).1
    simp only [statement, bind_eq_ok]
    constructor
    · rintro ⟨t, mid, h, -⟩
      exact absurd h (hpeek t mid)
    · rintro ⟨w, hw, hs, -⟩
      have hpos := hs.length_pos
      rw [(List.append_eq_nil_iff.mp hw.symm).1] at hpos
      cases hpos
  | cons k ts =>
    have hpeek : ∀ f : Token → Parser Stmt, (peek >>= f) (k :: ts) = f k (k :: ts) := fun f => rfl
    rw [statement, hpeek]
    -- each class of first tokens has its own parser
    cases hk : k.kind with
    | keyword word =>
      have hword : ∀ word', word ≠ word' → k.kind ≠ .keyword word' := by
        intro word' hne
        simpa [hk] using hne
      cases word with
      | letKw =>
        have hlet : k.kind = .keyword (declarationKeyword false) := hk
        exact declaration_eq_ok hexpression hlet hlen
      | constKw =>
        have hconst : k.kind = .keyword (declarationKeyword true) := hk
        exact declaration_eq_ok hexpression hconst hlen
      | fnKw =>
        have hclause := functionDeclaration_reads hexpression hblock hbound hk hlen
        refine optionalSemicolon_eq_ok hclause ?_
        rintro (_ | _) <;> exact hword _ (by decide)
      | forKw =>
        refine optionalSemicolon_eq_ok (countedLoop_reads hblock hk hlen) ?_
        rintro (_ | _) <;> exact hword _ (by decide)
      | whileKw =>
        refine optionalSemicolon_eq_ok (conditionalLoop_reads hexpression hblock hk hlen) ?_
        rintro (_ | _) <;> exact hword _ (by decide)
    | _ =>
      have hword : ∀ word, k.kind ≠ .keyword word := by simp [hk]
      exact optionalSemicolon_eq_ok (expressionStatement_reads hexpression hword hlen)
        fun _ => hword _

/-- Bounded statements are read as the strict grammar derives them. -/
theorem statementWithin_reads (bound : Nat) :
    Reads bound (statementWithin bound) WholeStatement := by
  induction bound with
  | zero =>
    intro ts s rest hlen
    omega
  | succ bound ih =>
    exact statement_reads (expressionWithin_reads (bound + 1)) (block_reads ih (Nat.le_succ bound))
      le_rfl

/-- The parser of programs reads what the strict grammar derives, up to the end of the text. -/
theorem program_eq_ok {ts rest : List Token} {p : Program} :
    program ts = .ok p rest ↔ ∃ w, ts = w ++ rest ∧ Statements true p w ∧ atEnd rest = true := by
  have hstop : ∀ t : Token, (fun _ => false) t = true → t.kind = .symbol .rightBrace := by simp
  have hread := statementsUntil_reads hstop (statementWithin_reads (ts.length + 1))
    (Nat.le_succ _) [] ts p rest (Nat.lt_succ_self _)
  rw [program, unbounded, programWithin, hread]
  constructor
  · rintro ⟨w, hw, new, rfl, hnew, hend⟩
    refine ⟨w, hw, hnew, ?_⟩
    rw [stopsBefore] at hend
    simpa using hend
  · rintro ⟨w, hw, hp, hend⟩
    exact ⟨w, hw, p, rfl, hp, by simp [stopsBefore, hend]⟩

end Scriptlet.Parser
