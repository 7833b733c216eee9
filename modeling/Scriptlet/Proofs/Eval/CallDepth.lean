import Scriptlet.Proofs.Eval.Scopes
import Scriptlet.Proofs.Eval.Simulation

/-! # What the limit of nested calls decides

A run that does not fail for its depth is compared with a run under another limit. The machine
remembers the largest depth that a call asked for. Up to the first call that asks for more than the
other limit, the two runs are the same; there the other run fails, and nothing catches the failure.
-/

namespace Scriptlet

/-- The evaluation ended because calls were nested too deeply. -/
def Outcome.Overflows {α : Type} : Outcome RuntimeError α → Prop
  | .failed e _ => ∃ limit, e.cause = .depthExceeded limit
  | .done _ _ | .unfinished => False

theorem Outcome.overflows_mapMachine {α : Type} (g : Machine → Machine)
    (o : Outcome RuntimeError α) : (o.mapMachine g).Overflows ↔ o.Overflows := by
  cases o <;> exact Iff.rfl

/-- How an evaluation under a limit compares to one that led from `m` to `m'`: it ends in the same
way if no call asked for more than the limit, and fails if one did. -/
structure Follows {α : Type} (limit : Nat) (m m' : Machine) (o o' : Outcome RuntimeError α) :
    Prop where
  deepest_le : m.deepest ≤ m'.deepest
  same : m'.deepest ≤ limit → o' = o
  overflow : m.deepest ≤ limit → limit < m'.deepest →
    ∃ pos m'', o' = .failed ⟨.depthExceeded limit, pos⟩ m''

/-- The second evaluation, under a limit, follows the first wherever that ends and does not
overflow. -/
def Tracks (limit : Nat) {α : Type} (x y : Eval α) : Prop :=
  ∀ m m', (x m).EndsIn m' → ¬ (x m).Overflows → Follows limit m m' (x m) (y m)

variable {limit : Nat}

/-- An evaluation that calls nothing follows itself. -/
theorem tracks_self {α : Type} {x : Eval α}
    (hx : ∀ m m', (x m).EndsIn m' → m'.deepest = m.deepest) : Tracks limit x x := by
  intro m m' hends _
  have hdeepest := hx m m' hends
  refine ⟨Nat.le_of_eq hdeepest.symm, fun _ => rfl, fun hle hlt => ?_⟩
  rw [hdeepest] at hlt
  exact absurd hlt (Nat.not_lt_of_le hle)

theorem tracks_bind {α β : Type} {x y : Eval α} {f g : α → Eval β} (hx : Tracks limit x y)
    (hf : ∀ a, Tracks limit (f a) (g a)) : Tracks limit (x >>= f) (y >>= g) := by
  intro m m' hends hoverflow
  rw [Eval.bind_apply] at hends hoverflow ⊢
  rw [Eval.bind_apply]
  have hfirst := hx m
  cases hxm : x m with
  | done a m₁ =>
    simp only [hxm] at hends hoverflow hfirst ⊢
    obtain ⟨hle₁, hsame₁, hoverflow₁⟩ := hfirst m₁ rfl id
    obtain ⟨hle₂, hsame₂, hoverflow₂⟩ := hf a m₁ m' hends hoverflow
    refine ⟨Nat.le_trans hle₁ hle₂, fun hle => ?_, fun hle hlt => ?_⟩
    · rw [hsame₁ (Nat.le_trans hle₂ hle)]
      exact hsame₂ hle
    · -- the call that asks for too much comes in the first part or in the second
      by_cases hearly : limit < m₁.deepest
      · obtain ⟨pos, m₂, hy⟩ := hoverflow₁ hle hearly
        exact ⟨pos, m₂, by rw [hy]⟩
      · have hle' := Nat.le_of_not_lt hearly
        rw [hsame₁ hle']
        exact hoverflow₂ hle' hlt
  | failed e m₁ =>
    simp only [hxm] at hends hoverflow hfirst ⊢
    cases hends
    obtain ⟨hle₁, hsame₁, hoverflow₁⟩ := hfirst m' rfl hoverflow
    refine ⟨hle₁, fun hle => by rw [hsame₁ hle], fun hle hlt => ?_⟩
    obtain ⟨pos, m₂, hy⟩ := hoverflow₁ hle hlt
    exact ⟨pos, m₂, by rw [hy]⟩
  | unfinished =>
    rw [hxm] at hends
    cases hends

theorem tracks_deeper {α : Type} {x y : Eval α} (hx : Tracks limit x y) :
    Tracks limit (Eval.deeper x) (Eval.deeper y) := by
  intro m m' hends hoverflow
  rw [Eval.deeper_apply] at hends hoverflow ⊢
  rw [Eval.deeper_apply]
  rw [Outcome.overflows_mapMachine] at hoverflow
  obtain ⟨m₁, hends₁, rfl⟩ := (Outcome.endsIn_mapMachine _ _).mp hends
  obtain ⟨hle₁, hsame₁, hoverflow₁⟩ := hx { m with depth := m.depth + 1 } m₁ hends₁ hoverflow
  refine ⟨hle₁, fun hle => by rw [hsame₁ hle], fun hle hlt => ?_⟩
  obtain ⟨pos, m₂, hy⟩ := hoverflow₁ hle hlt
  exact ⟨pos, { m₂ with depth := m₂.depth - 1 }, by rw [hy]; rfl⟩

/-- Where the first run claims a level, the second fails exactly if its limit leaves none. -/
theorem tracks_claimDepth (limit' : Nat) (pos : Position) :
    Tracks limit (Eval.claimDepth limit' pos) (Eval.claimDepth limit pos) := by
  intro m m' hends hoverflow
  rw [Eval.claimDepth] at hends hoverflow ⊢
  rw [Eval.claimDepth]
  by_cases hfree : m.depth < limit'
  · rw [if_pos hfree] at hends ⊢
    cases hends
    -- the depth asked for is the new one, unless an earlier call asked for more
    refine ⟨Nat.le_max_left _ _, fun hle => ?_, fun hle hlt => ?_⟩
    · have hdepth : m.depth < limit := Nat.le_trans (Nat.le_max_right _ _) hle
      rw [if_pos hdepth]
    · have hdepth : ¬ m.depth < limit := by
        intro hlt'
        exact absurd (Nat.max_le.mpr ⟨hle, hlt'⟩) (Nat.not_le_of_lt hlt)
      rw [if_neg hdepth]
      exact ⟨pos, _, rfl⟩
  · rw [if_neg hfree] at hoverflow
    exact absurd ⟨limit', rfl⟩ hoverflow

theorem deepest_print {text : String} {pos : Position} {m m' : Machine}
    (h : (Eval.print text pos m).EndsIn m') : m'.deepest = m.deepest := by
  unfold Eval.print at h
  split at h <;> rw [← h]

theorem simulation_tracks (limit limit' : Nat) : Simulation (Tracks limit') limit limit' :=
  .ofStoreOnly (fun _ _ _ hends _ => hends.elim)
    (fun hx => tracks_self fun _ _ h => by rw [hx.frame h]) tracks_bind tracks_deeper
    (fun _ _ => tracks_self fun _ _ => deepest_print) (tracks_claimDepth limit)

/-- What the limit of nested calls decides. A run from outside all calls that finishes and does not
overflow leaves the largest depth that a call asked for. With any limit of at least this depth the
program ends in the same way; with any smaller limit it overflows. More fuel changes neither. -/
theorem eval_under_limit {limit fuel : Nat} {scope : ScopeId} {p : Program} {m m' : Machine}
    (hends : (p.eval limit fuel scope m.rewound).EndsIn m')
    (hoverflow : ¬ (p.eval limit fuel scope m.rewound).Overflows) :
    (∀ limit', m'.deepest ≤ limit' → ∀ fuel', fuel ≤ fuel' →
        p.eval limit' fuel' scope m.rewound = p.eval limit fuel scope m.rewound) ∧
      ∀ limit', limit' < m'.deepest → ∃ pos m'', ∀ fuel', fuel ≤ fuel' →
        p.eval limit' fuel' scope m.rewound = .failed ⟨.depthExceeded limit', pos⟩ m'' := by
  have hfollows (limit' fuel' : Nat) (hle : fuel ≤ fuel') :=
    (simulation_tracks limit limit').program hle scope p m.rewound m' hends hoverflow
  refine ⟨fun limit' hle fuel' hfuel => (hfollows limit' fuel' hfuel).same hle, ?_⟩
  intro limit' hlt
  -- outside all calls no depth has been asked for yet
  obtain ⟨pos, m'', hrun⟩ := (hfollows limit' fuel (Nat.le_refl _)).overflow (Nat.zero_le _) hlt
  refine ⟨pos, m'', fun fuel' hfuel => ?_⟩
  rw [← hrun]
  exact eval_of_le hfuel (by rw [hrun]; exact nofun)

/-- Calls a function that calls itself once, so calls are nested twice. -/
def nestedCalls : Program :=
  [.function "f" ["again"]
      [.whileLoop (.identifier "again" .nowhere)
        [.expr (.assign (.identifier "again" .nowhere) (.bool false .nowhere) .nowhere),
          .expr (.call (.identifier "f" .nowhere) [.identifier "again" .nowhere] .nowhere)]
        .nowhere] .nowhere,
    .expr (.call (.identifier "f" .nowhere) [.bool true .nowhere] .nowhere)]

/-- How the program ends under a limit. -/
def nestedCallsUnder (limit : Nat) : Outcome RuntimeError Value :=
  nestedCalls.eval limit 20 0 (Machine.bare .none).rewound

/-- Two levels are enough for the program, and one is not. -/
theorem nestedCalls_under_limit :
    (nestedCallsUnder 9).EndsIn ((nestedCallsUnder 9).machineOr (.bare .none)) ∧
      ¬ (nestedCallsUnder 9).Overflows ∧
      nestedCallsUnder 2 = nestedCallsUnder 9 ∧
      ∃ pos m, nestedCallsUnder 1 = .failed ⟨.depthExceeded 1, pos⟩ m := by
  have hdone : (match nestedCallsUnder 9 with
      | .done _ _ => true
      | .failed _ _ | .unfinished => false) = true := by
    decide +kernel
  have hdeepest : ((nestedCallsUnder 9).machineOr (.bare .none)).deepest = 2 := by
    decide +kernel
  obtain ⟨v, m, hrun⟩ : ∃ v m, nestedCallsUnder 9 = .done v m := by
    cases hrun : nestedCallsUnder 9 with
    | done v m => exact ⟨v, m, rfl⟩
    | failed e m | unfinished =>
      rw [hrun] at hdone
      cases hdone
  have hends : (nestedCallsUnder 9).EndsIn ((nestedCallsUnder 9).machineOr (.bare .none)) := by
    rw [hrun]
    rfl
  have hoverflow : ¬ (nestedCallsUnder 9).Overflows := by
    rw [hrun]
    exact id
  obtain ⟨hsame, hsmaller⟩ := eval_under_limit hends hoverflow
  obtain ⟨pos, m'', hfails⟩ := hsmaller 1 (by rw [hdeepest]; decide)
  exact ⟨hends, hoverflow, hsame 2 (Nat.le_of_eq hdeepest) 20 (Nat.le_refl _), pos, m'',
    hfails 20 (Nat.le_refl _)⟩

end Scriptlet
