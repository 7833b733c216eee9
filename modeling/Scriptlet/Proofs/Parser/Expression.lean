import Scriptlet.Proofs.Parser.Basic

/-! # What the parsers of expressions read

Each parser of expressions reads the phrases of its slot, up to a token that does not continue them.
Two such phrases at the front of one list are the same, so the loops, which go on as long as they
can, lose nothing.

The bound that a parser is given exceeds the number of tokens. Every pass of a loop and every use of
`self` follows a token that was taken, so the bound is never what ends a loop.
-/

namespace Scriptlet.Parser

open Grammar

section Operators

variable {ts rest : List Token}

/-- An operator is taken if it has the level that is asked for. -/
theorem takeOperator?_eq_some {level : Nat} {op : Operator} :
    takeOperator? level ts = .ok (some op) rest ↔
      op.tier.level = level ∧ ∃ t, t.kind.operator? = some op ∧ ts = t :: rest := by
  cases ts with
  | nil => simp [takeOperator?]
  | cons t ts =>
    rw [takeOperator?]
    cases hop : t.kind.operator? with
    | none =>
      simp only [Reply.ok.injEq, reduceCtorEq, false_and, List.cons.injEq, false_iff]
      rintro ⟨-, t', ht', rfl, -⟩
      simp [hop] at ht'
    | some op' =>
      by_cases hlevel : op'.tier.level = level
      · simp only [if_pos hlevel, Reply.ok.injEq, Option.some.injEq, List.cons.injEq]
        constructor
        · rintro ⟨rfl, rfl⟩
          exact ⟨hlevel, t, hop, rfl, rfl⟩
        · rintro ⟨-, t', ht', rfl, rfl⟩
          simpa [hop] using ht'
      · simp only [if_neg hlevel, Reply.ok.injEq, reduceCtorEq, false_and, List.cons.injEq,
          false_iff]
        rintro ⟨hlevel', t', ht', rfl, -⟩
        rw [hop, Option.some.injEq] at ht'
        exact hlevel (ht' ▸ hlevel')

/-- Nothing is taken if the next token is no operator of the level, or if there is none. -/
theorem takeOperator?_eq_none {level : Nat} :
    takeOperator? level ts = .ok none rest ↔
      ts = rest ∧ ∀ t ∈ rest.head?, ∀ op, t.kind.operator? = some op → op.tier.level ≠ level := by
  cases ts with
  | nil =>
    simp only [takeOperator?, Reply.ok.injEq, true_and]
    constructor
    · rintro rfl
      simp
    · exact And.left
  | cons t ts =>
    rw [takeOperator?]
    cases hop : t.kind.operator? with
    | none =>
      simp only [Reply.ok.injEq, true_and]
      constructor
      · rintro rfl
        refine ⟨rfl, ?_⟩
        rintro t' ⟨⟩ op hop'
        simp [hop] at hop'
      · exact And.left
    | some op =>
      by_cases hlevel : op.tier.level = level
      · simp only [if_pos hlevel, Reply.ok.injEq, reduceCtorEq, false_and, false_iff]
        rintro ⟨rfl, hrest⟩
        exact hrest t rfl op hop hlevel
      · simp only [if_neg hlevel, Reply.ok.injEq, true_and]
        constructor
        · rintro rfl
          refine ⟨rfl, ?_⟩
          rintro t' ⟨⟩ op' hop'
          rw [hop, Option.some.injEq] at hop'
          exact hop' ▸ hlevel
        · exact And.left

end Operators

/-- An expression of a slot, and a rest that does not continue it. -/
def Whole (slot : Slot) (e : Expr) (w rest : List Token) : Prop :=
  Derives slot e w ∧ Stops slot rest

variable {self : Parser Expr} {bound passes : Nat}

/-! ## Lists of expressions -/

/-- Items up to the closing parenthesis, by induction on the passes that are left. -/
theorem items_reads (hself : Reads bound self (Whole .assignment)) (hbound : bound ≤ passes + 1)
    (before : List Expr) :
    Reads bound (items self passes before) fun es w _ =>
      ∃ new, es = before.reverse ++ new ∧ new ≠ [] ∧ Arguments new w := by
  induction passes generalizing bound before with
  | zero =>
    intro ts es rest hlen
    obtain rfl : ts = [] := List.length_eq_zero_iff.mp (by omega)
    simp only [items, fail_ne_ok, false_iff]
    -- a list has at least its closing parenthesis
    rintro ⟨w, hw, new, -, -, hargs⟩
    obtain ⟨t, ht, -⟩ := hargs.getLast
    rw [(List.append_eq_nil_iff.mp hw.symm).1] at ht
    cases ht
  | succ passes ih =>
    intro ts es rest hlen
    have hrec := ih (hself.mono (Nat.sub_le bound 1)) (by omega)
    simp only [items, bind_eq_ok, next_eq_ok]
    constructor
    · rintro ⟨e, mid, he, t, mid', rfl, h⟩
      obtain ⟨u, rfl, hu, -⟩ := (hself _ _ _ hlen).mp he
      -- an item takes a token, so the items after it are within the smaller bound
      have hpos := hu.length_pos
      simp only [List.length_append, List.length_cons] at hlen
      split at h
      · next hcomma =>
        obtain ⟨v, rfl, new, rfl, hne, hargs⟩ := (hrec (e :: before) mid' es rest (by omega)).mp h
        obtain ⟨e', es', rfl⟩ := List.exists_cons_of_ne_nil hne
        refine ⟨u ++ t :: v, by simp, e :: e' :: es', by simp, by simp, ?_⟩
        exact .more hu (isSymbol_iff.mp hcomma) hargs
      · split at h
        · next hclose =>
          obtain ⟨rfl, rfl⟩ := pure_eq_ok.mp h
          refine ⟨u ++ [t], by simp, [e], by simp, by simp, ?_⟩
          exact .last hu (isSymbol_iff.mp hclose)
        · exact (fail_ne_ok.mp h).elim
    · rintro ⟨w, rfl, new, rfl, hne, hargs⟩
      cases hargs with
      | none => exact absurd rfl hne
      | last hu hr =>
        rename_i e u r
        have hstop : Stops .assignment (r :: rest) := stops_separator _ hr rfl rest
        refine ⟨e, r :: rest, (hself _ _ _ hlen).mpr ⟨u, by simp, hu, hstop⟩, r, rest, rfl, ?_⟩
        rw [if_neg (by simp [isSymbol_iff, hr]), if_pos (isSymbol_iff.mpr hr)]
        simp [pure_eq_ok]
      | more hu hc hargs =>
        rename_i e e' es u v c
        have hpos := hu.length_pos
        have hstop : Stops .assignment (c :: (v ++ rest)) := stops_separator _ hc rfl _
        refine ⟨e, c :: (v ++ rest), (hself _ _ _ hlen).mpr ⟨u, by simp, hu, hstop⟩, c, v ++ rest,
          rfl, ?_⟩
        simp only [List.length_append, List.length_cons] at hlen
        rw [if_pos (isSymbol_iff.mpr hc), hrec _ _ _ _ (by simp only [List.length_append]; omega)]
        exact ⟨v, rfl, e' :: es, by simp, by simp, hargs⟩

/-- Argument lists are read with their closing parenthesis. -/
theorem commaList_reads (hself : Reads bound self (Whole .assignment))
    (hbound : bound ≤ passes + 1) :
    Reads bound (commaList self passes) fun es w _ => Arguments es w := by
  have hnone : Reads bound (pure []) fun (es : List Expr) w _ => [] = es ∧ w = [] := pure_reads []
  have hreads := skipIf_reads (s := .rightParen) hnone (items_reads hself hbound [])
    (Nat.le_succ bound)
  refine hreads.congr fun es w rest => ?_
  constructor
  · rintro (⟨r, v, hr, rfl, rfl, rfl⟩ | ⟨-, new, rfl, -, hargs⟩)
    · exact .none hr
    · exact hargs
  · intro hargs
    -- a list that is not empty opens with an expression, which no closing parenthesis does
    have hopens : ∀ {e : Expr} {u v : List Token}, Derives .assignment e u →
        ∀ t ∈ (u ++ v).head?, t.kind ≠ .symbol .rightParen := by
      intro e u v hu t ht
      obtain ⟨t', ht', hopens⟩ := hu.head
      obtain rfl := Option.mem_unique ht (mem_head?_append ht' v)
      exact hopens.ne_rightParen
    cases hargs with
    | none hr => exact Or.inl ⟨_, [], hr, rfl, rfl, rfl⟩
    | last hu hr =>
      refine Or.inr ⟨?_, _, rfl, by simp, .last hu hr⟩
      rw [List.append_assoc]
      exact hopens hu
    | more hu hc hargs =>
      refine Or.inr ⟨?_, _, rfl, by simp, .more hu hc hargs⟩
      rw [List.append_assoc]
      exact hopens hu

/-! ## Primaries, calls and negation -/

/-- An expression up to a closing parenthesis. -/
theorem closed_reads (hself : Reads bound self (Whole .assignment)) :
    Reads bound (self >>= fun e => expect .rightParen >>= fun _ => pure e) fun e w _ =>
      ∃ u r, w = u ++ [r] ∧ Derives .assignment e u ∧ r.kind = .symbol .rightParen := by
  have hreads := hself.bind fun e =>
    (expect_reads .rightParen).bind fun _ => pure_reads e
  refine hreads.congr fun e w rest => ?_
  constructor
  · rintro ⟨e', u, v, rfl, ⟨hu, -⟩, -, v', v'', rfl, ⟨r, hr, rfl⟩, rfl, rfl⟩
    exact ⟨u, r, rfl, hu, hr⟩
  · rintro ⟨u, r, rfl, hu, hr⟩
    have hstop : Stops .assignment (r :: rest) := stops_separator _ hr rfl rest
    exact ⟨e, u, [r], rfl, ⟨hu, hstop⟩, (), [r], [], rfl, ⟨r, hr, rfl⟩, rfl, rfl⟩

/-- Only after an opening parenthesis is a whole expression read, from fewer tokens. -/
theorem primary_reads (hself : Reads bound self (Whole .assignment)) :
    Reads (bound + 1) (primary self) fun e w _ => Derives .primary e w := by
  have hclosed := closed_reads hself
  intro ts e rest hlen
  simp only [primary, bind_eq_ok, next_eq_ok]
  constructor
  · rintro ⟨t, mid, rfl, h⟩
    cases hk : t.kind with
    | identifier x =>
      rw [hk] at h
      obtain ⟨rfl, rfl⟩ := pure_eq_ok.mp h
      exact ⟨[t], rfl, .identifier hk⟩
    | number x =>
      rw [hk] at h
      obtain ⟨rfl, rfl⟩ := pure_eq_ok.mp h
      exact ⟨[t], rfl, .number hk⟩
    | symbol s =>
      rw [hk] at h
      cases s with
      | leftParen =>
        obtain ⟨w, rfl, u, r, rfl, hu, hr⟩ := (hclosed _ _ _ (Nat.lt_of_succ_lt_succ hlen)).mp h
        exact ⟨t :: (u ++ [r]), rfl, .paren hk hu hr⟩
      | _ => exact (fail_ne_ok.mp h).elim
    | keyword k =>
      rw [hk] at h
      exact (fail_ne_ok.mp h).elim
    | endOfFile =>
      rw [hk] at h
      exact (fail_ne_ok.mp h).elim
  · rintro ⟨w, rfl, hw⟩
    cases hw with
    | identifier hk => exact ⟨_, _, rfl, by rw [hk]; rfl⟩
    | number hk => exact ⟨_, _, rfl, by rw [hk]; rfl⟩
    | @paren _ l r w hl hw hr =>
      refine ⟨l, w ++ [r] ++ rest, rfl, ?_⟩
      rw [hl]
      exact (hclosed _ _ _ (Nat.lt_of_succ_lt_succ hlen)).mpr ⟨_, rfl, w, r, rfl, hw, hr⟩

/-- Calls are read as long as an opening parenthesis follows, by induction on the passes that are
left. -/
theorem callsFrom_reads (hself : Reads bound self (Whole .assignment)) (hbound : bound ≤ passes)
    (callee : Expr) :
    Reads (bound + 1) (callsFrom self passes callee) fun e w rest =>
      Calls callee e w ∧ Stops .call rest := by
  induction passes generalizing bound callee with
  | zero =>
    intro ts e rest hlen
    obtain rfl : ts = [] := List.length_eq_zero_iff.mp (by omega)
    simp only [callsFrom, pure_eq_ok]
    constructor
    · rintro ⟨rfl, rfl⟩
      exact ⟨[], rfl, .done, stops_nil _⟩
    · rintro ⟨w, hw, hcalls, -⟩
      obtain ⟨rfl, rfl⟩ := List.append_eq_nil_iff.mp hw.symm
      cases hcalls
      exact ⟨rfl, rfl⟩
  | succ passes ih =>
    have hlist : Reads bound (commaList self passes) fun es w _ => Arguments es w :=
      commaList_reads hself (by omega)
    -- the calls after this one have the smaller bound, since an argument list takes a token
    have hmore (args : List Expr) : Reads (bound - 1 + 1)
        (callsFrom self passes (.call callee args callee.pos)) fun e w rest =>
          Calls (.call callee args callee.pos) e w ∧ Stops .call rest :=
      ih (hself.mono (Nat.sub_le bound 1)) (by omega) _
    have hreads := skipIf_reads (s := .leftParen)
      (hlist.bind fun args => (hmore args).mono (by omega)) (pure_reads callee) (Nat.le_refl _)
    refine hreads.congr fun e w rest => ?_
    constructor
    · rintro (⟨l, v, hl, rfl, args, u, v', rfl, hu, hcalls, hstop⟩ | ⟨hnext, rfl, rfl⟩)
      · exact ⟨.step hl hu hcalls, hstop⟩
      · exact ⟨.done, hnext⟩
    · rintro ⟨hcalls, hstop⟩
      cases hcalls with
      | done => exact Or.inr ⟨hstop, rfl, rfl⟩
      | step hl hu hcalls => exact Or.inl ⟨_, _, hl, rfl, _, _, _, rfl, hu, hcalls, hstop⟩

theorem call_reads (hself : Reads bound self (Whole .assignment)) (hbound : bound ≤ passes) :
    Reads (bound + 1) (call self passes) (Whole .call) := by
  have hreads := (primary_reads hself).bind (callsFrom_reads hself hbound)
  refine hreads.congr fun e w rest => ?_
  constructor
  · rintro ⟨callee, u, v, rfl, hu, hv, hstop⟩
    exact ⟨.calls hu hv, hstop⟩
  · rintro ⟨hw, hstop⟩
    cases hw with
    | calls hu hv => exact ⟨_, _, _, rfl, hu, hv, hstop⟩

/-- Negations are read by induction on the tokens, since each takes one. -/
theorem unary_reads (hself : Reads bound self (Whole .assignment)) (hbound : bound ≤ passes) :
    Reads (bound + 1) (unary self passes) (Whole (.level 0)) := by
  have hcall := call_reads hself hbound
  -- a negation sign takes one token, so the induction is on the tokens
  intro ts
  induction ts with
  | nil =>
    intro e rest hlen
    rw [unary, hcall _ _ _ hlen]
    constructor
    · rintro ⟨w, hw, hd, hstop⟩
      exact ⟨w, hw, .positive hd, stops_level_zero.mpr hstop⟩
    · rintro ⟨w, hw, hd, -⟩
      exact absurd (List.append_eq_nil_iff.mp hw.symm).1 hd.ne_nil
  | cons t ts ih =>
    intro e rest hlen
    have hinner : ∀ e rest, unary self passes ts = .ok e rest ↔
        ∃ w, ts = w ++ rest ∧ Whole (.level 0) e w rest :=
      fun e rest => ih e rest (by simp only [List.length_cons] at hlen; omega)
    rw [unary]
    by_cases hnot : isSymbol .not t = true
    · rw [if_pos hnot]
      constructor
      · intro h
        split at h
        · next e' rest' he =>
          obtain ⟨rfl, rfl⟩ := Reply.ok.inj h
          obtain ⟨w, rfl, hw, hstop⟩ := (hinner _ _).mp he
          exact ⟨t :: w, rfl, .not (isSymbol_iff.mp hnot) hw, hstop⟩
        · cases h
      · rintro ⟨w, hts, hw, hstop⟩
        cases hw with
        | not ht hw =>
          obtain ⟨rfl, rfl⟩ := List.cons.inj hts
          rw [(hinner _ _).mpr ⟨_, rfl, hw, hstop⟩]
        | positive hw =>
          obtain ⟨t', ht', -⟩ := hw.head
          have hhead : t ∈ w.head? := by
            have hmem := mem_head?_append ht' rest
            rw [← hts] at hmem
            cases hmem
            exact ht'
          exact absurd (isSymbol_iff.mp hnot) (hw.call_head_ne_not t hhead)
    · rw [if_neg hnot, hcall _ _ _ hlen]
      constructor
      · rintro ⟨w, hw, hd, hstop⟩
        exact ⟨w, hw, .positive hd, stops_level_zero.mpr hstop⟩
      · rintro ⟨w, hts, hw, hstop⟩
        cases hw with
        | not ht hw =>
          obtain ⟨rfl, -⟩ := List.cons.inj hts
          exact absurd (isSymbol_iff.mpr ht) hnot
        | positive hw => exact ⟨w, hts, hw, stops_level_zero.mp hstop⟩

/-! ## Operators and assignment -/

/-- Operators of one level are read as long as one follows, by induction on the passes that are
left. -/
theorem chainFrom_eq_ok {n : Nat} {operand : Parser Expr}
    (hoperand : Reads bound operand (Whole (.level n))) (hbound : bound ≤ passes + 1)
    {left e : Expr} {ts rest : List Token} (hlen : ts.length < bound) (hts : Stops (.level n) ts) :
    chainFrom (n + 1) operand passes left ts = .ok e rest ↔
      ∃ w, ts = w ++ rest ∧ Chain n left e w ∧ Stops (.level (n + 1)) rest := by
  -- throughout the loop, no operator comes next that binds more tightly than those of the chain
  induction passes generalizing left ts bound with
  | zero =>
    obtain rfl : ts = [] := List.length_eq_zero_iff.mp (by omega)
    simp only [chainFrom, pure_eq_ok]
    constructor
    · rintro ⟨rfl, rfl⟩
      exact ⟨[], rfl, .done, stops_nil _⟩
    · rintro ⟨w, hw, hchain, -⟩
      obtain ⟨rfl, rfl⟩ := List.append_eq_nil_iff.mp hw.symm
      cases hchain
      exact ⟨rfl, rfl⟩
  | succ passes ih =>
    simp only [chainFrom, bind_eq_ok]
    constructor
    · rintro ⟨taken, mid, htake, h⟩
      cases taken with
      | none =>
        obtain ⟨rfl, hnext⟩ := takeOperator?_eq_none.mp htake
        obtain ⟨rfl, rfl⟩ := pure_eq_ok.mp h
        exact ⟨[], rfl, .done, stops_succ hts hnext⟩
      | some op =>
        obtain ⟨hlevel, t, hop, rfl⟩ := takeOperator?_eq_some.mp htake
        simp only [bind_eq_ok] at h
        obtain ⟨right, mid', hright, h⟩ := h
        simp only [List.length_cons] at hlen
        obtain ⟨u, rfl, hu, hstop⟩ := (hoperand _ _ _ (by omega)).mp hright
        simp only [List.length_append] at hlen
        obtain ⟨v, rfl, hv, hend⟩ :=
          (ih (hoperand.mono (Nat.sub_le bound 1)) (by omega) (by omega) hstop).mp h
        exact ⟨t :: (u ++ v), by simp, .step hop hlevel hu hv, hend⟩
    · rintro ⟨w, rfl, hchain, hstop⟩
      cases hchain with
      | done =>
        refine ⟨none, rest, takeOperator?_eq_none.mpr ⟨rfl, ?_⟩, by simp [pure_eq_ok]⟩
        intro t ht op hop hlevel
        exact hstop t ht (Or.inr ⟨op, hop, by omega⟩)
      | step hop hlevel hu hv =>
        rename_i op right t u v
        simp only [List.cons_append, List.append_assoc, List.length_cons,
          List.length_append] at hlen
        -- the right operand ends at the next operator of the chain, or where the chain ends
        have hmid : Stops (.level n) (v ++ rest) := hv.stops hstop
        refine ⟨some op, u ++ (v ++ rest), takeOperator?_eq_some.mpr ⟨hlevel, t, hop, by simp⟩, ?_⟩
        simp only [bind_eq_ok]
        refine ⟨right, v ++ rest, (hoperand _ _ _ ?_).mpr ⟨u, rfl, hu, hmid⟩, ?_⟩
        · simp only [List.length_append]
          omega
        · have hrest := hoperand.mono (Nat.sub_le bound 1)
          refine (ih hrest (by omega) ?_ hmid).mpr ⟨v, rfl, hv, hstop⟩
          have hpos := hu.length_pos
          simp only [List.length_append]
          omega

/-- By induction on the level. What follows the operand of a level decides whether the chain goes
on. -/
theorem chain_reads (hself : Reads bound self (Whole .assignment)) (hbound : bound ≤ passes)
    (n : Nat) : Reads (bound + 1) (chain self passes n) (Whole (.level n)) := by
  induction n with
  | zero => exact unary_reads hself hbound
  | succ n ih =>
    intro ts e rest hlen
    simp only [chain, bind_eq_ok]
    constructor
    · rintro ⟨left, mid, hleft, h⟩
      obtain ⟨u, rfl, hu, hstop⟩ := (ih _ _ _ hlen).mp hleft
      simp only [List.length_append] at hlen
      obtain ⟨v, rfl, hv, hend⟩ := (chainFrom_eq_ok ih (by omega) (by omega) hstop).mp h
      exact ⟨u ++ v, by simp, .operators hu hv, hend⟩
    · rintro ⟨w, rfl, hw, hstop⟩
      cases hw with
      | operators hu hv =>
        rename_i left u v
        rw [List.append_assoc] at hlen
        have hmid : Stops (.level n) (v ++ rest) := hv.stops hstop
        refine ⟨left, v ++ rest, ?_, ?_⟩
        · rw [List.append_assoc]
          exact (ih _ _ _ hlen).mpr ⟨u, rfl, hu, hmid⟩
        · refine (chainFrom_eq_ok ih (by omega) ?_ hmid).mpr ⟨v, rfl, hv, hstop⟩
          simp only [List.length_append] at hlen ⊢
          omega

theorem assignment_reads (hself : Reads bound self (Whole .assignment)) (hbound : bound ≤ passes) :
    Reads (bound + 1) (assignment self passes) (Whole .assignment) := by
  have htier := chain_reads hself hbound Tier.logical.level
  have hreads := htier.bind fun target => skipIf_reads (s := .assign)
    (hself.bind fun value => pure_reads (.assign target value target.pos)) (pure_reads target)
    (Nat.le_refl _)
  refine hreads.congr fun e w rest => ?_
  constructor
  · rintro ⟨target, u, v, rfl, ⟨hu, hstop⟩,
      ⟨t, v', ht, rfl, value, v₁, v₂, rfl, ⟨hv, hend⟩, rfl, rfl⟩ | ⟨hnext, rfl, rfl⟩⟩
    · rw [List.append_nil]
      exact ⟨.assign hu ht hv, hend⟩
    · rw [List.append_nil]
      exact ⟨.operand hu, (stops_assignment_iff rest).mpr ⟨hstop, hnext⟩⟩
  · rintro ⟨hw, hstop⟩
    cases hw with
    | operand hw =>
      obtain ⟨hend, hnext⟩ := (stops_assignment_iff rest).mp hstop
      exact ⟨e, w, [], (List.append_nil w).symm, ⟨hw, hend⟩, Or.inr ⟨hnext, rfl, rfl⟩⟩
    | @assign target value u v t hu ht hv =>
      -- the sign of an assignment is no operator, so the target ends there
      have hmid : Stops .logical (t :: (v ++ rest)) := by
        rw [stops_cons, ht]
        rintro (hk | ⟨op, hk, -⟩) <;> cases hk
      exact ⟨target, u, t :: v, rfl, ⟨hu, hmid⟩, Or.inl ⟨t, v, ht, rfl, value, v, [],
        (List.append_nil v).symm, ⟨hv, hstop⟩, rfl, rfl⟩⟩

/-- Whole expressions are read from every list that is shorter than the bound. -/
theorem expressionWithin_reads (bound : Nat) :
    Reads bound (expressionWithin bound) (Whole .assignment) := by
  induction bound with
  | zero =>
    intro ts e rest hlen
    exact absurd hlen (Nat.not_lt_zero _)
  | succ bound ih => exact assignment_reads ih le_rfl

end Scriptlet.Parser
