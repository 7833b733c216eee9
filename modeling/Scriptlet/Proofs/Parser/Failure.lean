import Scriptlet.Proofs.Parser.Break

/-! # Where the parsers of expressions fail

`Fails` is to failure what `Reads` is to success. Each parser of expressions fails exactly where a
phrase of its slot breaks off, with the error of the break, and leaves the tokens after it. What a
parser has taken decides its failure, so the tokens after the break have no part in it.

Running out of tokens is left out: that failure depends on nothing coming next.
-/

namespace Scriptlet.Parser

open Grammar

/-- What a parser fails on, in lists of fewer than `bound` tokens: it fails, other than by running
out of tokens, exactly if the list consists of tokens and a rest such that `F` holds of the tokens
and an error, and then with this error and this rest. -/
def Fails {α : Type} (bound : Nat) (p : Parser α) (F : List Token → SyntaxError → Prop) : Prop :=
  ∀ ts e rest, ts.length < bound →
    (p ts = .error e rest ∧ e ≠ .endOfInput ↔ ∃ w, ts = w ++ rest ∧ F w e)

/-- The error of a token list that ends too early is known by its cause. -/
theorem ne_endOfInput (cause : SyntaxError.Cause) (pos : Position)
    (h : cause ≠ .unexpected .moreInput .endOfFile) : (⟨cause, pos⟩ : SyntaxError) ≠ .endOfInput :=
  fun heq => h (congrArg SyntaxError.cause heq)

theorem unexpected_ne_endOfInput {x : Expected} (hx : x ≠ .moreInput) (t : Token) :
    SyntaxError.unexpected x t ≠ .endOfInput :=
  ne_endOfInput _ t.pos (by simp [hx])

/-- Two parsers in turn fail if the first does, or if the second does on what the first left. -/
theorem bind_eq_error {α β : Type} {p : Parser α} {f : α → Parser β} {e : SyntaxError}
    {ts rest : List Token} :
    (p >>= f) ts = .error e rest ↔
      p ts = .error e rest ∨ ∃ a mid, p ts = .ok a mid ∧ f a mid = .error e rest := by
  rw [bind_apply]
  cases p ts <;> simp

/-! ## Parsers one after another -/

section Fails

variable {α β : Type} {bound bound' : Nat} {p q : Parser α} {f : α → Parser β}
  {P : α → List Token → List Token → Prop} {F F' : List Token → SyntaxError → Prop}
  {G : α → List Token → SyntaxError → Prop}

/-- Failures on fewer tokens are the same. -/
theorem Fails.mono (h : Fails bound p F) (hle : bound' ≤ bound) : Fails bound' p F :=
  fun ts e rest hlen => h ts e rest (by omega)

theorem Fails.congr (h : Fails bound p F) (hiff : ∀ w e, F w e ↔ F' w e) : Fails bound p F' := by
  intro ts e rest hlen
  simp only [h ts e rest hlen, hiff]

/-- Without tokens, a parser can fail only by running out of them, if failures take tokens. -/
theorem eq_error_nil_iff {e : SyntaxError} {rest : List Token}
    (hp : ∀ e rest, p [] = .error e rest → e = .endOfInput) (hne : ∀ w e, F w e → w ≠ []) :
    p [] = .error e rest ∧ e ≠ .endOfInput ↔ ∃ w, [] = w ++ rest ∧ F w e := by
  constructor
  · rintro ⟨h, he⟩
    exact absurd (hp e rest h) he
  · rintro ⟨w, hw, h⟩
    exact absurd (List.append_eq_nil_iff.mp hw.symm).1 (hne w e h)

/-- One parser after another fails in the first, or in the second after tokens of the first. What
the second has taken shows the first where to end. -/
theorem Fails.bind_of_le (hfail : Fails bound p F) (hp : Reads bound p P)
    (hf : ∀ a, Fails bound' (f a) (G a)) (hle : ∀ a u rest, P a u rest → bound ≤ bound' + u.length)
    (hahead : ∀ a u v rest e, G a v e → (P a u (v ++ rest) ↔ P a u v)) :
    Fails bound (p >>= f) fun w e => F w e ∨ ∃ a u v, w = u ++ v ∧ P a u v ∧ G a v e := by
  intro ts e rest hlen
  rw [bind_eq_error]
  constructor
  · rintro ⟨h | ⟨a, mid, ha, h⟩, he⟩
    · obtain ⟨w, hw, hF⟩ := (hfail _ _ _ hlen).mp ⟨h, he⟩
      exact ⟨w, hw, Or.inl hF⟩
    · obtain ⟨u, rfl, hu⟩ := (hp _ _ _ hlen).mp ha
      have hbound := hle a u mid hu
      rw [List.length_append] at hlen
      obtain ⟨v, rfl, hv⟩ := (hf a _ _ _ (by omega)).mp ⟨h, he⟩
      exact ⟨u ++ v, (List.append_assoc u v rest).symm,
        Or.inr ⟨a, u, v, rfl, (hahead a u v rest e hv).mp hu, hv⟩⟩
  · rintro ⟨w, rfl, hF | ⟨a, u, v, rfl, hu, hv⟩⟩
    · obtain ⟨h, he⟩ := (hfail _ _ _ hlen).mpr ⟨w, rfl, hF⟩
      exact ⟨Or.inl h, he⟩
    · have hu' := (hahead a u v rest e hv).mpr hu
      have hbound := hle a u (v ++ rest) hu'
      rw [List.append_assoc] at hlen ⊢
      have hread := (hp _ _ _ hlen).mpr ⟨u, rfl, hu'⟩
      rw [List.length_append] at hlen
      obtain ⟨h, he⟩ := (hf a (v ++ rest) e rest (by omega)).mpr ⟨v, rfl, hv⟩
      exact ⟨Or.inr ⟨a, v ++ rest, hread, h⟩, he⟩

/-- Parsers in turn break where the first breaks, or where the second breaks after what the first
has read. What the first reads must not depend on tokens behind the break. -/
theorem Fails.bind (hfail : Fails bound p F) (hp : Reads bound p P)
    (hf : ∀ a, Fails bound (f a) (G a))
    (hahead : ∀ a u v rest e, G a v e → (P a u (v ++ rest) ↔ P a u v)) :
    Fails bound (p >>= f) fun w e => F w e ∨ ∃ a u v, w = u ++ v ∧ P a u v ∧ G a v e :=
  hfail.bind_of_le hp hf (fun _ _ _ _ => Nat.le_add_right _ _) hahead

/-- A parser that takes one token, and then another: what the first takes does not depend on what
comes next. -/
theorem Fails.bind_token {A : α → Token → Prop} (hfail : Fails bound p F)
    (hp : Reads bound p fun a w _ => ∃ t, A a t ∧ w = [t]) (hf : ∀ a, Fails bound' (f a) (G a))
    (hle : bound ≤ bound' + 1) :
    Fails bound (p >>= f) fun w e => F w e ∨ ∃ a t v, w = t :: v ∧ A a t ∧ G a v e := by
  have hfails := hfail.bind_of_le hp hf
    (by
      rintro a u rest ⟨t, -, rfl⟩
      exact hle)
    fun _ _ _ _ _ _ => Iff.rfl
  refine hfails.congr fun w e => or_congr_right ?_
  constructor
  · rintro ⟨a, u, v, rfl, ⟨t, ht, rfl⟩, h⟩
    exact ⟨a, t, v, rfl, ht, h⟩
  · rintro ⟨a, t, v, rfl, ht, h⟩
    exact ⟨a, [t], v, rfl, ⟨t, ht, rfl⟩, h⟩

theorem pure_fails (a : α) : Fails bound (pure a) fun _ _ => False := by
  intro ts e rest _
  simp [pure_apply]

/-- What comes last and cannot fail adds no failures. -/
theorem Fails.bind_total (hfail : Fails bound p F) (hf : ∀ a ts e rest, f a ts ≠ .error e rest) :
    Fails bound (p >>= f) F := by
  intro ts e rest hlen
  rw [← hfail ts e rest hlen, bind_eq_error]
  constructor
  · rintro ⟨h | ⟨a, mid, -, h⟩, he⟩
    · exact ⟨h, he⟩
    · exact absurd h (hf a mid e rest)
  · rintro ⟨h, he⟩
    exact ⟨Or.inl h, he⟩

theorem Fails.bind_pure (hfail : Fails bound p F) (g : α → β) :
    Fails bound (p >>= fun a => pure (g a)) F :=
  hfail.bind_total fun _ _ _ _ => by simp [pure_apply]

theorem fail_fails {e : SyntaxError} (he : e ≠ .endOfInput) :
    Fails bound (fail e : Parser α) fun w e' => w = [] ∧ e' = e := by
  intro ts e' rest _
  simp only [fail, Reply.error.injEq]
  constructor
  · rintro ⟨⟨rfl, rfl⟩, -⟩
    exact ⟨[], rfl, rfl, rfl⟩
  · rintro ⟨w, rfl, rfl, rfl⟩
    exact ⟨⟨rfl, rfl⟩, he⟩

/-- A choice breaks as the chosen parser does. -/
theorem ite_fails {c : Prop} [Decidable c] (hp : c → Fails bound p F)
    (hq : ¬ c → Fails bound q F') :
    Fails bound (if c then p else q) fun w e => c ∧ F w e ∨ ¬ c ∧ F' w e := by
  by_cases hc : c
  · rw [if_pos hc]
    exact (hp hc).congr fun w e => by simp [hc]
  · rw [if_neg hc]
    exact (hq hc).congr fun w e => by simp [hc]

/-- After the next token, the failures are those of what follows it. -/
theorem next_fails {f : Token → Parser β} {G : Token → List Token → SyntaxError → Prop}
    (hf : ∀ t, Fails bound (f t) (G t)) :
    Fails (bound + 1) (next >>= f) fun w e => ∃ t v, w = t :: v ∧ G t v e := by
  intro ts e rest hlen
  cases ts with
  | nil =>
    refine eq_error_nil_iff (p := next >>= f) (F := fun w e => ∃ t v, w = t :: v ∧ G t v e) ?_ ?_
    · intro e rest h
      cases h
      rfl
    · rintro w e ⟨t, v, rfl, -⟩
      simp
  | cons t ts =>
    have hnext : (next >>= f) (t :: ts) = f t ts := rfl
    rw [hnext, hf t ts e rest (Nat.lt_of_succ_lt_succ hlen)]
    constructor
    · rintro ⟨v, rfl, hv⟩
      exact ⟨t :: v, rfl, t, v, rfl, hv⟩
    · rintro ⟨w, hw, t', v, rfl, hv⟩
      cases hw
      exact ⟨v, rfl, hv⟩

/-- The failures of a parser after its first token. -/
theorem Fails.cons (h : Fails (bound + 1) p fun w e => ∃ k v, w = k :: v ∧ F v e) {k : Token}
    {ts rest : List Token} {e : SyntaxError} (hlen : ts.length < bound) :
    p (k :: ts) = .error e rest ∧ e ≠ .endOfInput ↔ ∃ w, ts = w ++ rest ∧ F w e := by
  rw [h (k :: ts) e rest (Nat.succ_lt_succ hlen)]
  constructor
  · rintro ⟨w, hw, k', v, rfl, hv⟩
    obtain ⟨-, rfl⟩ := List.cons.inj hw
    exact ⟨v, rfl, hv⟩
  · rintro ⟨v, rfl, hv⟩
    exact ⟨k :: v, rfl, k, v, rfl, hv⟩

/-- Any other token breaks what is read, and is the last one taken. -/
theorem expectOr_fails (s : Symbol) {wrong : Token → SyntaxError}
    (hwrong : ∀ t, wrong t ≠ .endOfInput) :
    Fails bound (expectOr s wrong) fun w e => ∃ t, t.kind ≠ .symbol s ∧ w = [t] ∧ e = wrong t := by
  have hchoice (t : Token) :
      Fails bound (if isSymbol s t = true then pure () else fail (wrong t)) _ :=
    ite_fails (fun _ => pure_fails ()) fun _ => fail_fails (hwrong t)
  refine ((next_fails hchoice).mono (Nat.le_succ bound)).congr fun w e => ?_
  simp only [isSymbol_iff, and_false, false_or]
  constructor
  · rintro ⟨t, v, rfl, ht, rfl, rfl⟩
    exact ⟨t, ht, rfl, rfl⟩
  · rintro ⟨t, ht, rfl, rfl⟩
    exact ⟨t, [], rfl, ht, rfl, rfl⟩

theorem expect_fails (s : Symbol) :
    Fails bound (expect s) fun w e =>
      ∃ t, t.kind ≠ .symbol s ∧ w = [t] ∧ e = .unexpected (.symbol s) t :=
  expectOr_fails s (unexpected_ne_endOfInput (by simp))

/-- A choice by the next symbol fails after the symbol, or without it. -/
theorem skipIf_fails {s : Symbol} (hp : Fails bound p F) (hq : Fails bound' q F')
    (hle : bound' ≤ bound + 1) (hne : ∀ w e, F' w e → w ≠ []) :
    Fails bound' (skipIf s >>= fun taken => if taken = true then p else q) fun w e =>
      (∃ t v, t.kind = .symbol s ∧ w = t :: v ∧ F v e) ∨ NotFirst s w ∧ F' w e := by
  intro ts e rest hlen
  have hskip : ∀ e rest, skipIf s ts ≠ .error e rest := by
    intro e rest
    cases ts with
    | nil => simp [skipIf]
    | cons t ts =>
      rw [skipIf]
      split <;> simp
  simp only [bind_eq_error, hskip, false_or]
  constructor
  · rintro ⟨⟨taken, mid, htaken, h⟩, he⟩
    cases taken with
    | true =>
      obtain ⟨t, ht, rfl⟩ := skipIf_eq_true.mp htaken
      rw [List.length_cons] at hlen
      obtain ⟨v, rfl, hv⟩ := (hp _ _ _ (by omega)).mp ⟨h, he⟩
      exact ⟨t :: v, rfl, Or.inl ⟨t, v, ht, rfl, hv⟩⟩
    | false =>
      obtain ⟨rfl, hnext⟩ := skipIf_eq_false.mp htaken
      obtain ⟨w, rfl, hw⟩ := (hq _ _ _ hlen).mp ⟨h, he⟩
      exact ⟨w, rfl, Or.inr ⟨fun t ht => hnext t (mem_head?_append ht rest), hw⟩⟩
  · rintro ⟨w, rfl, ⟨t, v, ht, rfl, hv⟩ | ⟨hnext, hw⟩⟩
    · rw [List.cons_append, List.length_cons] at hlen
      obtain ⟨h, he⟩ := (hp (v ++ rest) e rest (by omega)).mpr ⟨v, rfl, hv⟩
      exact ⟨⟨true, v ++ rest, skipIf_eq_true.mpr ⟨t, ht, rfl⟩, h⟩, he⟩
    · obtain ⟨h, he⟩ := (hq _ _ _ hlen).mpr ⟨w, rfl, hw⟩
      have hfirst : ∀ t ∈ (w ++ rest).head?, t.kind ≠ .symbol s :=
        fun t ht => hnext t (mem_head?_of_append (hne w e hw) ht)
      exact ⟨⟨false, w ++ rest, skipIf_eq_false.mpr ⟨rfl, hfirst⟩, h⟩, he⟩

end Fails

/-! ## Lists of expressions -/

/-- Tokens show an expression before them where to end, whatever comes after them. -/
theorem whole_append_iff {slot : Slot} {x : Expr} {u v : List Token} (hv : v ≠ [])
    (rest : List Token) : Whole slot x u (v ++ rest) ↔ Whole slot x u v := by
  cases v with
  | nil => exact absurd rfl hv
  | cons t v => simp [Whole]

variable {self : Parser Expr} {bound passes : Nat}

/-- Items break inside of an item or at the token after it, by induction on the passes that are
left. -/
theorem items_fails (hself : Reads bound self (Whole .assignment))
    (hfail : Fails bound self (Breaks .assignment)) (hbound : bound ≤ passes + 1)
    (before : List Expr) : Fails bound (items self passes before) BreaksItems := by
  induction passes generalizing bound before with
  | zero =>
    intro ts e rest hlen
    obtain rfl : ts = [] := List.length_eq_zero_iff.mp (by omega)
    refine eq_error_nil_iff (fun e rest h => ?_) fun _ _ => BreaksItems.ne_nil
    cases h
    rfl
  | succ passes ih =>
    have hrec := ih (hself.mono (Nat.sub_le bound 1)) (hfail.mono (Nat.sub_le bound 1)) (by omega)
    have hafter (item : Expr) := next_fails fun t =>
      ite_fails (c := isSymbol .comma t = true) (fun _ => hrec (item :: before)) fun _ =>
        ite_fails (c := isSymbol .rightParen t = true)
          (fun _ => pure_fails (item :: before).reverse) fun _ =>
            fail_fails (unexpected_ne_endOfInput (x := .commaOrClose) (by simp) t)
    have hfails := hfail.bind_of_le hself hafter (fun _ _ _ _ => by omega) (by
      rintro item u v rest e ⟨t, v, rfl, -⟩
      exact whole_append_iff (by simp) rest)
    refine hfails.congr fun w e => ?_
    constructor
    · rintro (h | ⟨item, u, v, rfl, ⟨hu, hstop⟩, t, v, rfl,
        ⟨hcomma, h⟩ | ⟨hcomma, ⟨-, ⟨⟩⟩ | ⟨hclose, rfl, rfl⟩⟩⟩)
      · exact .item h
      · exact .next hu (isSymbol_iff.mp hcomma) h
      · exact .separator hu hstop (mt isSymbol_iff.mpr hcomma) (mt isSymbol_iff.mpr hclose)
    · intro h
      cases h with
      | item h => exact Or.inl h
      | @separator x t w hw hstop hcomma hclose =>
        exact Or.inr ⟨x, w, [t], rfl, ⟨hw, hstop⟩, t, [], rfl, Or.inr ⟨mt isSymbol_iff.mp hcomma,
          Or.inr ⟨mt isSymbol_iff.mp hclose, rfl, rfl⟩⟩⟩
      | @next x c u v _ hu hc h =>
        exact Or.inr ⟨x, u, c :: v, rfl, ⟨hu, stops_separator _ hc rfl v⟩, c, v, rfl,
          Or.inl ⟨isSymbol_iff.mpr hc, h⟩⟩

/-- Lists up to a closing parenthesis fail in their items, of which the first does not open with
that parenthesis. -/
theorem commaList_fails (hself : Reads bound self (Whole .assignment))
    (hfail : Fails bound self (Breaks .assignment)) (hbound : bound ≤ passes + 1) :
    Fails bound (commaList self passes) fun w e => NotFirst .rightParen w ∧ BreaksItems w e := by
  have hnone : Fails bound (pure ([] : List Expr)) _ := pure_fails []
  have hfails := skipIf_fails (s := .rightParen) hnone (items_fails hself hfail hbound [])
    (Nat.le_succ bound) fun _ _ => BreaksItems.ne_nil
  exact hfails.congr fun w e => by simp

/-! ## Primaries, calls and negation -/

/-- An expression that breaks off, or another token than the given symbol after one. -/
def BreaksBefore (s : Symbol) (wrong : Token → SyntaxError) (w : List Token) (e : SyntaxError) :
    Prop :=
  Breaks .assignment w e ∨ ∃ x u t, w = u ++ [t] ∧ Derives .assignment x u ∧
    Stops .assignment [t] ∧ t.kind ≠ .symbol s ∧ e = wrong t

/-- An expression up to a symbol fails in the expression or at the token after it. -/
theorem upTo_fails {α : Type} (hself : Reads bound self (Whole .assignment))
    (hfail : Fails bound self (Breaks .assignment)) (s : Symbol) {wrong : Token → SyntaxError}
    (hwrong : ∀ t, wrong t ≠ .endOfInput) (g : Expr → α) :
    Fails bound (self >>= fun x => expectOr s wrong >>= fun _ => pure (g x))
      (BreaksBefore s wrong) := by
  have hfails := hfail.bind hself (fun x => (expectOr_fails s hwrong).bind_pure fun _ => g x) (by
    rintro x u v rest e ⟨t, -, rfl, -⟩
    exact whole_append_iff (by simp) rest)
  refine hfails.congr fun w e => or_congr_right ?_
  constructor
  · rintro ⟨x, u, v, rfl, ⟨hu, hstop⟩, t, ht, rfl, rfl⟩
    exact ⟨x, u, t, rfl, hu, hstop, ht, rfl⟩
  · rintro ⟨x, u, t, rfl, hu, hstop, ht, rfl⟩
    exact ⟨x, u, [t], rfl, ⟨hu, hstop⟩, t, ht, rfl, rfl⟩

/-- A token that starts no primary breaks it at once; in a group, the expression or the closing
parenthesis breaks it. -/
theorem primary_fails (hself : Reads bound self (Whole .assignment))
    (hfail : Fails bound self (Breaks .assignment)) :
    Fails (bound + 1) (primary self) (Breaks .primary) := by
  have hclosed := upTo_fails hself hfail .rightParen
    (unexpected_ne_endOfInput (x := .symbol .rightParen) (by simp)) id
  -- a token that opens no primary fails at once, and a parenthesis leads on
  have hfails : Fails (bound + 1) (primary self) fun w e => ∃ t v, w = t :: v ∧
      (¬ OpensPrimary t.kind ∧ v = [] ∧ e = .unexpected .expression t ∨
        t.kind = .symbol .leftParen ∧
          BreaksBefore .rightParen (.unexpected (.symbol .rightParen)) v e) := by
    refine next_fails fun t => ?_
    have hwrong : Fails bound (fail (.unexpected .expression t) : Parser Expr) _ :=
      fail_fails (unexpected_ne_endOfInput (by simp) t)
    cases hk : t.kind with
    | identifier x => exact (pure_fails _).congr fun v e => by simp [OpensPrimary]
    | number x => exact (pure_fails _).congr fun v e => by simp [OpensPrimary]
    | keyword k => exact hwrong.congr fun v e => by simp [OpensPrimary]
    | endOfFile => exact hwrong.congr fun v e => by simp [OpensPrimary]
    | symbol s =>
      cases s with
      | leftParen => exact hclosed.congr fun v e => by simp [OpensPrimary]
      | _ => exact hwrong.congr fun v e => by simp [OpensPrimary]
  refine hfails.congr fun w e => ?_
  constructor
  · rintro ⟨t, v, rfl, ⟨ht, rfl, rfl⟩ | ⟨ht, h | ⟨x, u, t', rfl, hu, hstop, ht', rfl⟩⟩⟩
    · exact .start ht
    · exact .inside ht h
    · exact .unclosed ht hu hstop ht'
  · intro h
    cases h with
    | start ht => exact ⟨_, [], rfl, Or.inl ⟨ht, rfl, rfl⟩⟩
    | inside hl h => exact ⟨_, _, rfl, Or.inr ⟨hl, Or.inl h⟩⟩
    | unclosed hl hu hstop ht =>
      exact ⟨_, _, rfl, Or.inr ⟨hl, Or.inr ⟨_, _, _, rfl, hu, hstop, ht, rfl⟩⟩⟩

/-- Argument lists after a callee that break off in the last of them. -/
def BreaksCalls (callee : Expr) (w : List Token) (e : SyntaxError) : Prop :=
  ∃ x u l v, w = u ++ l :: v ∧ Calls callee x u ∧ l.kind = .symbol .leftParen ∧
    NotFirst .rightParen v ∧ BreaksItems v e

/-- Calls break inside of an argument list only, by induction on the passes that are left. -/
theorem callsFrom_fails (hself : Reads bound self (Whole .assignment))
    (hfail : Fails bound self (Breaks .assignment)) (hbound : bound ≤ passes) (callee : Expr) :
    Fails (bound + 1) (callsFrom self passes callee) (BreaksCalls callee) := by
  induction passes generalizing bound callee with
  | zero =>
    intro ts e rest hlen
    obtain rfl : ts = [] := List.length_eq_zero_iff.mp (by omega)
    refine eq_error_nil_iff (fun e rest h => ?_) ?_
    · cases h
    · rintro w e ⟨x, u, l, v, rfl, -⟩
      simp
  | succ passes ih =>
    have hlist : Fails bound (commaList self passes) _ := commaList_fails hself hfail (by omega)
    have hmore (args : List Expr) : Fails (bound - 1 + 1)
        (callsFrom self passes (.call callee args callee.pos))
        (BreaksCalls (.call callee args callee.pos)) :=
      ih (hself.mono (Nat.sub_le bound 1)) (hfail.mono (Nat.sub_le bound 1)) (by omega) _
    have hfails := skipIf_fails (s := .leftParen)
      (hlist.bind (commaList_reads hself (by omega)) (fun args => (hmore args).mono (by omega))
        fun _ _ _ _ _ _ => Iff.rfl)
      (pure_fails callee) (Nat.le_refl _) (fun _ _ => False.elim)
    refine hfails.congr fun w e => ?_
    constructor
    · rintro (⟨l, v, hl, rfl, ⟨hfirst, h⟩ |
        ⟨args, u, v, rfl, hu, x, u', l', v', rfl, hcalls, hl', hfirst, h⟩⟩ | ⟨-, ⟨⟩⟩)
      · exact ⟨callee, [], l, v, rfl, .done, hl, hfirst, h⟩
      · exact ⟨x, l :: (u ++ u'), l', v', by simp, .step hl hu hcalls, hl', hfirst, h⟩
    · rintro ⟨x, u, l, v, rfl, hcalls, hl, hfirst, h⟩
      cases hcalls with
      | done => exact Or.inl ⟨l, v, hl, rfl, Or.inl ⟨hfirst, h⟩⟩
      | @step _ _ args t u u' ht hargs hcalls =>
        refine Or.inl ⟨t, u ++ (u' ++ l :: v), ht, by simp, Or.inr ?_⟩
        exact ⟨args, u, u' ++ l :: v, rfl, hargs, x, u', l, v, rfl, hcalls, hl, hfirst, h⟩

theorem call_fails (hself : Reads bound self (Whole .assignment))
    (hfail : Fails bound self (Breaks .assignment)) (hbound : bound ≤ passes) :
    Fails (bound + 1) (call self passes) (Breaks .call) := by
  have hfails := (primary_fails hself hfail).bind (primary_reads hself)
    (callsFrom_fails hself hfail hbound) fun _ _ _ _ _ _ => Iff.rfl
  refine hfails.congr fun w e => ?_
  constructor
  · rintro (h | ⟨callee, u, v, rfl, hu, x, u', l, v, rfl, hcalls, hl, hfirst, h⟩)
    · exact .callee h
    · rw [← List.append_assoc]
      exact .arguments (.calls hu hcalls) hl hfirst h
  · intro h
    cases h with
    | callee h => exact Or.inl h
    | arguments hu hl hfirst h =>
      cases hu with
      | calls hu hcalls =>
        exact Or.inr ⟨_, _, _, List.append_assoc _ _ _, hu, _, _, _, _, rfl, hcalls, hl, hfirst, h⟩

theorem unary_fails (hself : Reads bound self (Whole .assignment))
    (hfail : Fails bound self (Breaks .assignment)) (hbound : bound ≤ passes) :
    Fails (bound + 1) (unary self passes) (Breaks (.level 0)) := by
  have hcall := call_fails hself hfail hbound
  intro ts
  induction ts with
  | nil =>
    intro e rest hlen
    rw [unary, hcall _ _ _ hlen]
    constructor
    · rintro ⟨w, hw, h⟩
      exact absurd (List.append_eq_nil_iff.mp hw.symm).1 h.ne_nil
    · rintro ⟨w, hw, h⟩
      exact absurd (List.append_eq_nil_iff.mp hw.symm).1 h.ne_nil
  | cons t ts ih =>
    intro e rest hlen
    by_cases hnot : isSymbol .not t = true
    · have hinner := ih e rest (by simp only [List.length_cons] at hlen; omega)
      have hreply : unary self passes (t :: ts) = .error e rest ↔
          unary self passes ts = .error e rest := by
        rw [unary, if_pos hnot]
        cases unary self passes ts <;> simp
      rw [hreply, hinner]
      constructor
      · rintro ⟨w, rfl, h⟩
        exact ⟨t :: w, rfl, .not (isSymbol_iff.mp hnot) h⟩
      · rintro ⟨w, hw, h⟩
        cases h with
        | not ht h =>
          obtain ⟨rfl, rfl⟩ := List.cons.inj hw
          exact ⟨_, rfl, h⟩
        | positive hfirst h =>
          have hhead : t ∈ w.head? := mem_head?_of_append h.ne_nil (by rw [← hw]; rfl)
          exact absurd (isSymbol_iff.mp hnot) (hfirst t hhead)
    · rw [unary, if_neg hnot, hcall _ _ _ hlen]
      constructor
      · rintro ⟨w, hw, h⟩
        refine ⟨w, hw, .positive ?_ h⟩
        intro k hk
        have hhead := mem_head?_append hk rest
        rw [← hw] at hhead
        cases hhead
        exact mt isSymbol_iff.mpr hnot
      · rintro ⟨w, hw, h⟩
        cases h with
        | not ht h =>
          obtain ⟨rfl, -⟩ := List.cons.inj hw
          exact absurd (isSymbol_iff.mpr ht) hnot
        | positive _ h => exact ⟨w, hw, h⟩

/-! ## Operators and assignment -/

/-- Operators of level `n + 1` after a left operand that break off in the last right operand. -/
def BreaksChain (n : Nat) (left : Expr) (w : List Token) (e : SyntaxError) : Prop :=
  ∃ x op u o v, w = u ++ o :: v ∧ Chain n left x u ∧ o.kind.operator? = some op ∧
    op.tier.level = n + 1 ∧ Breaks (.level n) v e

theorem takeOperator?_ne_error {level : Nat} {ts rest : List Token} {e : SyntaxError} :
    takeOperator? level ts ≠ .error e rest := by
  cases ts with
  | nil => simp [takeOperator?]
  | cons t ts =>
    rw [takeOperator?]
    split
    · split <;> simp
    · simp

theorem BreaksChain.ne_nil {n : Nat} {left : Expr} {w : List Token} {e : SyntaxError}
    (h : BreaksChain n left w e) : w ≠ [] := by
  obtain ⟨x, op, u, o, v, rfl, -⟩ := h
  simp

theorem chainFrom_fails {n : Nat} {operand : Parser Expr}
    (hoperand : Reads bound operand (Whole (.level n)))
    (hfail : Fails bound operand (Breaks (.level n))) (hbound : bound ≤ passes + 1) (left : Expr) :
    Fails bound (chainFrom (n + 1) operand passes left) (BreaksChain n left) := by
  induction passes generalizing left bound with
  | zero =>
    intro ts e rest hlen
    obtain rfl : ts = [] := List.length_eq_zero_iff.mp (by omega)
    refine eq_error_nil_iff (fun e rest h => ?_) fun _ _ => BreaksChain.ne_nil
    cases h
  | succ passes ih =>
    -- a right operand takes a token, so the passes that are left suffice
    have hstep (op : Operator) := hfail.bind_of_le hoperand
      (fun right => ih (hoperand.mono (Nat.sub_le bound 1)) (hfail.mono (Nat.sub_le bound 1))
        (by omega) (.binary op left right left.pos))
      (fun _ _ _ hu => by have hpos := hu.1.length_pos; omega)
      fun _ _ _ rest _ hv => whole_append_iff hv.ne_nil rest
    intro ts e rest hlen
    simp only [chainFrom, bind_eq_error, takeOperator?_ne_error, false_or]
    constructor
    · rintro ⟨⟨taken, mid, htake, h⟩, he⟩
      cases taken with
      | none => cases h
      | some op =>
        obtain ⟨hlevel, t, hop, rfl⟩ := takeOperator?_eq_some.mp htake
        rw [List.length_cons] at hlen
        obtain ⟨w, rfl, hw | ⟨right, u, v, rfl, ⟨hu, -⟩, x, op', u', o, v', rfl, hchain, hop',
          hlevel', hv⟩⟩ := (hstep op mid e rest (by omega)).mp ⟨h, he⟩
        · exact ⟨t :: w, rfl, left, op, [], t, w, rfl, .done, hop, hlevel, hw⟩
        · exact ⟨t :: (u ++ (u' ++ o :: v')), rfl, x, op', t :: (u ++ u'), o, v', by simp,
            .step hop hlevel hu hchain, hop', hlevel', hv⟩
    · rintro ⟨w, rfl, x, op, u, o, v, rfl, hchain, hop, hlevel, hv⟩
      cases hchain with
      | done =>
        simp only [List.nil_append, List.cons_append, List.length_cons] at hlen
        obtain ⟨h, he⟩ := (hstep op (v ++ rest) e rest (by omega)).mpr ⟨v, rfl, Or.inl hv⟩
        exact ⟨⟨some op, v ++ rest, takeOperator?_eq_some.mpr ⟨hlevel, o, hop, rfl⟩, h⟩, he⟩
      | @step _ op' _ right _ t u u' hop' hlevel' hu hchain =>
        have hstop : Stops (.level n) (u' ++ o :: v) := hchain.stops_operator hop hlevel v
        have hlater : BreaksChain n (.binary op' left right left.pos) (u' ++ o :: v) e :=
          ⟨x, op, u', o, v, rfl, hchain, hop, hlevel, hv⟩
        obtain ⟨h, he⟩ := (hstep op' (u ++ (u' ++ o :: v) ++ rest) e rest (by
          simp only [List.length_append, List.length_cons] at hlen ⊢
          omega)).mpr ⟨_, rfl, Or.inr ⟨right, u, u' ++ o :: v, rfl, ⟨hu, hstop⟩, hlater⟩⟩
        refine ⟨⟨some op', _, takeOperator?_eq_some.mpr ⟨hlevel', t, hop', ?_⟩, h⟩, he⟩
        simp

/-- By induction on the level. A chain breaks in its first operand or in one behind an operator. -/
theorem chain_fails (hself : Reads bound self (Whole .assignment))
    (hfail : Fails bound self (Breaks .assignment)) (hbound : bound ≤ passes) (n : Nat) :
    Fails (bound + 1) (chain self passes n) (Breaks (.level n)) := by
  induction n with
  | zero => exact unary_fails hself hfail hbound
  | succ n ih =>
    have hreads := chain_reads hself hbound n
    have hfails := ih.bind hreads (chainFrom_fails hreads ih (Nat.succ_le_succ hbound))
      fun _ _ _ rest _ hv => whole_append_iff hv.ne_nil rest
    refine hfails.congr fun w e => ?_
    constructor
    · rintro (h | ⟨left, u, v, rfl, ⟨hu, -⟩, x, op, u', o, v', rfl, hchain, hop, hlevel, h⟩)
      · exact .left h
      · rw [← List.append_assoc]
        exact .right (.operators hu hchain) hop hlevel h
    · intro h
      cases h with
      | left h => exact Or.inl h
      | @right _ x op o u v _ hu hop hlevel h =>
        cases hu with
        | @operators _ left _ u u' hu hchain =>
          have hstop : Stops (.level n) (u' ++ o :: v) := hchain.stops_operator hop hlevel v
          exact Or.inr ⟨left, u, u' ++ o :: v, List.append_assoc _ _ _, ⟨hu, hstop⟩, x, op, u', o,
            v, rfl, hchain, hop, hlevel, h⟩

theorem assignment_fails (hself : Reads bound self (Whole .assignment))
    (hfail : Fails bound self (Breaks .assignment)) (hbound : bound ≤ passes) :
    Fails (bound + 1) (assignment self passes) (Breaks .assignment) := by
  have htarget (target : Expr) : Fails (bound + 1) (pure target) _ := pure_fails target
  have hvalue (target : Expr) := skipIf_fails (s := .assign)
    (hfail.bind_pure fun value => .assign target value target.pos) (htarget target) (Nat.le_refl _)
    nofun
  have hfails := (chain_fails hself hfail hbound Tier.logical.level).bind
    (chain_reads hself hbound Tier.logical.level) hvalue (by
      rintro target u v rest e (⟨t, v, -, rfl, -⟩ | ⟨-, ⟨⟩⟩)
      exact whole_append_iff (by simp) rest)
  refine hfails.congr fun w e => ?_
  constructor
  · rintro (h | ⟨target, u, v, rfl, ⟨hu, -⟩,
      ⟨t, v, ht, rfl, h⟩ | ⟨-, ⟨⟩⟩⟩)
    · exact .operand h
    · exact .value hu ht h
  · intro h
    cases h with
    | operand h => exact Or.inl h
    | @value x a u v _ hu ha h =>
      have hstop : Stops .logical (a :: v) := by
        rw [stops_cons, ha]
        rintro (hk | ⟨op, hk, -⟩) <;> cases hk
      exact Or.inr ⟨x, u, a :: v, rfl, ⟨hu, hstop⟩, Or.inl ⟨a, v, ha, rfl, h⟩⟩

/-- Whole expressions fail where they break off, in every list that is shorter than the bound. -/
theorem expressionWithin_fails (bound : Nat) :
    Fails bound (expressionWithin bound) (Breaks .assignment) := by
  induction bound with
  | zero =>
    intro ts e rest hlen
    exact absurd hlen (Nat.not_lt_zero _)
  | succ bound ih => exact assignment_fails (expressionWithin_reads bound) ih le_rfl

end Scriptlet.Parser
