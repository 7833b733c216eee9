import Scriptlet.Proofs.Parser.Grammar

/-! # When parsers succeed

For each primitive, what its success says about the tokens before and after it. `Reads` is the form
in which the same is said of the parsers made of them.
-/

namespace Scriptlet.Parser

/-- What a parser reads from lists of fewer than `bound` tokens: it succeeds exactly if the list
consists of tokens and a rest such that `R` holds of a value, the tokens and the rest, and then with
this value and this rest. -/
def Reads {α : Type} (bound : Nat) (p : Parser α) (R : α → List Token → List Token → Prop) : Prop :=
  ∀ ts a rest, ts.length < bound → (p ts = .ok a rest ↔ ∃ w, ts = w ++ rest ∧ R a w rest)

/-- Fewer tokens are read in the same way. -/
theorem Reads.mono {α : Type} {bound bound' : Nat} {p : Parser α}
    {R : α → List Token → List Token → Prop} (h : Reads bound p R) (hle : bound' ≤ bound) :
    Reads bound' p R :=
  fun ts a rest hlen => h ts a rest (by omega)

variable {α β : Type} {ts rest : List Token}

theorem isSymbol_iff {s : Symbol} {t : Token} : isSymbol s t = true ↔ t.kind = .symbol s := by
  rw [isSymbol]
  cases t.kind <;> simp

/-- Two parsers in turn succeed if the first does, and the second does on what the first left. -/
theorem bind_eq_ok {p : Parser α} {f : α → Parser β} {b : β} :
    (p >>= f) ts = .ok b rest ↔ ∃ a mid, p ts = .ok a mid ∧ f a mid = .ok b rest := by
  rw [bind_apply]
  cases p ts <;> simp

/-- A parser that gives a value leaves all tokens. -/
theorem pure_eq_ok {a b : α} : (pure a : Parser α) ts = .ok b rest ↔ a = b ∧ ts = rest := by
  rw [pure_apply, Reply.ok.injEq]

theorem fail_ne_ok {e : SyntaxError} {a : α} : (fail e : Parser α) ts = .ok a rest ↔ False := by
  simp [fail]

/-- The next token is taken off. -/
theorem next_eq_ok {t : Token} : next ts = .ok t rest ↔ ts = t :: rest := by
  cases ts <;> simp [next]

/-- The next token is shown and stays, and there has to be one. -/
theorem peek_eq_ok {t : Token} : peek ts = .ok t rest ↔ t ∈ ts.head? ∧ ts = rest := by
  cases ts with
  | nil => simp [peek]
  | cons t' ts => simp [peek]

/-- The symbol was there exactly if it has been taken off. -/
theorem skipIf_eq_true {s : Symbol} :
    skipIf s ts = .ok true rest ↔ ∃ t, t.kind = .symbol s ∧ ts = t :: rest := by
  cases ts with
  | nil => simp [skipIf]
  | cons t ts =>
    rw [skipIf]
    split
    · next h => simp [isSymbol_iff.mp h]
    · next h =>
      rw [isSymbol_iff] at h
      simp only [Reply.ok.injEq, Bool.false_eq_true, false_and, List.cons.injEq, false_iff]
      rintro ⟨t', ht', rfl, -⟩
      exact h ht'

/-- The symbol was not there exactly if nothing has been taken off. The end of the tokens counts as
another symbol. -/
theorem skipIf_eq_false {s : Symbol} :
    skipIf s ts = .ok false rest ↔ ts = rest ∧ ∀ t ∈ rest.head?, t.kind ≠ .symbol s := by
  cases ts with
  | nil =>
    simp only [skipIf, Reply.ok.injEq, true_and]
    constructor
    · rintro rfl
      simp
    · exact And.left
  | cons t ts =>
    rw [skipIf]
    split
    · next h =>
      simp only [Reply.ok.injEq, Bool.true_eq_false, false_and, false_iff]
      rintro ⟨rfl, hrest⟩
      exact hrest t rfl (isSymbol_iff.mp h)
    · next h =>
      simp only [Reply.ok.injEq, true_and]
      constructor
      · rintro rfl
        refine ⟨rfl, ?_⟩
        rintro t' ⟨⟩ ht'
        exact h (isSymbol_iff.mpr ht')
      · exact And.left

/-- A symbol that is asked for is taken off, whatever the error would have been. -/
theorem expectOr_eq_ok {s : Symbol} {wrong : Token → SyntaxError} {u : Unit} :
    expectOr s wrong ts = .ok u rest ↔ ∃ t, t.kind = .symbol s ∧ ts = t :: rest := by
  simp only [expectOr, bind_eq_ok, next_eq_ok]
  constructor
  · rintro ⟨t, mid, rfl, h⟩
    split at h
    · next ht => exact ⟨t, isSymbol_iff.mp ht, by rw [(pure_eq_ok.mp h).2]⟩
    · exact (fail_ne_ok.mp h).elim
  · rintro ⟨t, ht, rfl⟩
    refine ⟨t, rest, rfl, ?_⟩
    rw [if_pos (isSymbol_iff.mpr ht)]
    rfl

/-! ## Parsers one after another -/

section Reads

variable {α β : Type} {bound bound' : Nat} {p q : Parser α} {f : α → Parser β}
  {P Q : α → List Token → List Token → Prop} {R : α → β → List Token → List Token → Prop}

/-- What a parser reads may be described in other words. -/
theorem Reads.congr (h : Reads bound p P) (hiff : ∀ a w rest, P a w rest ↔ Q a w rest) :
    Reads bound p Q := by
  intro ts a rest hlen
  simp only [h ts a rest hlen, hiff]

/-- One parser after another reads tokens of the first and then tokens of the second. The second may
have a smaller bound if the first takes tokens. -/
theorem Reads.bind_of_le (hp : Reads bound p P) (hf : ∀ a, Reads bound' (f a) (R a))
    (hle : ∀ a u rest, P a u rest → bound ≤ bound' + u.length) :
    Reads bound (p >>= f) fun b w rest =>
      ∃ a u v, w = u ++ v ∧ P a u (v ++ rest) ∧ R a b v rest := by
  intro ts b rest hlen
  rw [bind_eq_ok]
  constructor
  · rintro ⟨a, mid, ha, hb⟩
    obtain ⟨u, rfl, hu⟩ := (hp _ _ _ hlen).mp ha
    -- what the first parser has taken makes up for the smaller bound of the second
    have hbound := hle a u mid hu
    rw [List.length_append] at hlen
    obtain ⟨v, rfl, hv⟩ := (hf a _ _ _ (by omega)).mp hb
    exact ⟨u ++ v, (List.append_assoc u v rest).symm, a, u, v, rfl, hu, hv⟩
  · rintro ⟨w, rfl, a, u, v, rfl, hu, hv⟩
    have hbound := hle a u (v ++ rest) hu
    rw [List.append_assoc] at hlen ⊢
    refine ⟨a, v ++ rest, (hp _ _ _ hlen).mpr ⟨u, rfl, hu⟩, (hf a _ _ _ ?_).mpr ⟨v, rfl, hv⟩⟩
    rw [List.length_append] at hlen
    omega

/-- What two parsers read in turn splits into what each of them reads. The first is judged by the
tokens that the second reads and leaves. -/
theorem Reads.bind (hp : Reads bound p P) (hf : ∀ a, Reads bound (f a) (R a)) :
    Reads bound (p >>= f) fun b w rest =>
      ∃ a u v, w = u ++ v ∧ P a u (v ++ rest) ∧ R a b v rest :=
  hp.bind_of_le hf fun _ _ _ _ => Nat.le_add_right _ _

theorem pure_reads (a : α) : Reads bound (pure a) fun b w _ => a = b ∧ w = [] := by
  intro ts b rest _
  rw [pure_eq_ok]
  constructor
  · rintro ⟨rfl, rfl⟩
    exact ⟨[], rfl, rfl, rfl⟩
  · rintro ⟨w, rfl, rfl, rfl⟩
    exact ⟨rfl, rfl⟩

/-- A symbol that is asked for is all that is read. -/
theorem expectOr_reads (s : Symbol) (wrong : Token → SyntaxError) :
    Reads bound (expectOr s wrong) fun _ w _ => ∃ t, t.kind = .symbol s ∧ w = [t] := by
  intro ts u rest _
  rw [expectOr_eq_ok]
  constructor
  · rintro ⟨t, ht, rfl⟩
    exact ⟨[t], rfl, t, ht, rfl⟩
  · rintro ⟨w, rfl, t, ht, rfl⟩
    exact ⟨t, ht, rfl⟩

theorem expect_reads (s : Symbol) :
    Reads bound (expect s) fun _ w _ => ∃ t, t.kind = .symbol s ∧ w = [t] :=
  expectOr_reads s _

/-- A choice by the next symbol: it is taken before `p`, or it does not come before `q`. -/
theorem skipIf_reads {s : Symbol} (hp : Reads bound p P) (hq : Reads bound' q Q)
    (hle : bound' ≤ bound + 1) :
    Reads bound' (skipIf s >>= fun taken => if taken = true then p else q) fun a w rest =>
      (∃ t v, t.kind = .symbol s ∧ w = t :: v ∧ P a v rest) ∨
        (∀ t ∈ (w ++ rest).head?, t.kind ≠ .symbol s) ∧ Q a w rest := by
  intro ts a rest hlen
  rw [bind_eq_ok]
  constructor
  · rintro ⟨taken, mid, hskip, h⟩
    cases taken with
    | true =>
      obtain ⟨t, ht, rfl⟩ := skipIf_eq_true.mp hskip
      rw [List.length_cons] at hlen
      obtain ⟨v, rfl, hv⟩ := (hp _ _ _ (by omega)).mp h
      exact ⟨t :: v, rfl, Or.inl ⟨t, v, ht, rfl, hv⟩⟩
    | false =>
      obtain ⟨rfl, hnext⟩ := skipIf_eq_false.mp hskip
      obtain ⟨w, rfl, hw⟩ := (hq _ _ _ hlen).mp h
      exact ⟨w, rfl, Or.inr ⟨hnext, hw⟩⟩
  · rintro ⟨w, rfl, ⟨t, v, ht, rfl, hv⟩ | ⟨hnext, hw⟩⟩
    · rw [List.cons_append, List.length_cons] at hlen
      exact ⟨true, v ++ rest, skipIf_eq_true.mpr ⟨t, ht, rfl⟩,
        (hp _ _ _ (by omega)).mpr ⟨v, rfl, hv⟩⟩
    · exact ⟨false, w ++ rest, skipIf_eq_false.mpr ⟨rfl, hnext⟩, (hq _ _ _ hlen).mpr ⟨w, rfl, hw⟩⟩

end Reads
end Scriptlet.Parser
