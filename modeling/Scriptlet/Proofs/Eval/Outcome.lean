import Scriptlet.Eval.Machine

/-! # How evaluations end

An evaluation that has finished ends in a machine, with a value or with an error. Outcomes are
compared after the machine, and sometimes the value and the error too, have been changed.
-/

namespace Scriptlet

namespace Outcome

/-- The machine that an evaluation which has finished left, with a value or with an error. -/
def EndsIn {ε α : Type} (m' : Machine) : Outcome ε α → Prop
  | .done _ m | .failed _ m => m = m'
  | .unfinished => False

/-- Whether an evaluation ended with an error that passes a test. -/
def failsWith {ε α : Type} (test : ε → Bool) : Outcome ε α → Bool
  | .failed e _ => test e
  | _ => false

theorem eq_failed_of_failsWith {ε α : Type} {test : ε → Bool} {o : Outcome ε α}
    (h : o.failsWith test = true) : ∃ e m, o = .failed e m ∧ test e = true := by
  cases o with
  | failed e m => exact ⟨e, m, rfl, h⟩
  | _ => cases h

/-- The outcome with its value, its error and its machine changed. -/
def mapParts {ε ε' α β : Type} (value : α → β) (error : ε → ε')
    (machine : Machine → Machine) : Outcome ε α → Outcome ε' β
  | .done a m => .done (value a) (machine m)
  | .failed e m => .failed (error e) (machine m)
  | .unfinished => .unfinished

/-- The outcome with its machine changed. -/
def mapMachine {ε α : Type} (g : Machine → Machine) : Outcome ε α → Outcome ε α :=
  .mapParts id id g

section MapMachine

variable {ε α : Type} (g : Machine → Machine) (o : Outcome ε α)

theorem mapMachine_mapMachine (f : Machine → Machine) :
    (o.mapMachine g).mapMachine f = o.mapMachine (f ∘ g) := by
  cases o <;> rfl

theorem endsIn_mapMachine {m' : Machine} :
    (o.mapMachine g).EndsIn m' ↔ ∃ m, o.EndsIn m ∧ g m = m' := by
  cases o with
  | done a m | failed e m => exact ⟨fun h => ⟨m, rfl, h⟩, fun ⟨_, hm, h⟩ => hm ▸ h⟩
  | unfinished => exact ⟨False.elim, fun ⟨_, hm, _⟩ => hm⟩

variable {g o}

/-- A value after a change of the machine is the value before it. -/
theorem mapMachine_eq_done {a : α} {m : Machine} (h : o.mapMachine g = .done a m) :
    ∃ m₁, o = .done a m₁ ∧ g m₁ = m := by
  cases o with
  | done a₁ m₁ =>
    cases h
    exact ⟨m₁, rfl, rfl⟩
  | failed e m₁ | unfinished => cases h

/-- An error after a change of the machine is the error before it. -/
theorem mapMachine_eq_failed {e : ε} {m : Machine} (h : o.mapMachine g = .failed e m) :
    ∃ m₁, o = .failed e m₁ ∧ g m₁ = m := by
  cases o with
  | failed e₁ m₁ =>
    cases h
    exact ⟨m₁, rfl, rfl⟩
  | done a m₁ | unfinished => cases h

end MapMachine

/-! ## Ends of evaluations in turn -/

section InTurn

variable {ε α β γ : Type}

/-- How two evaluations end in turn: as the second does after the first has given a value, or as the
first does if it fails. -/
def InTurn (first : Outcome ε α → Prop) (next : α → Machine → Outcome ε β → Prop)
    (o : Outcome ε β) : Prop :=
  (∃ a m, first (.done a m) ∧ next a m o) ∨ ∃ e m, first (.failed e m) ∧ o = .failed e m

theorem inTurn_congr {first first' : Outcome ε α → Prop}
    {next next' : α → Machine → Outcome ε β → Prop} {o : Outcome ε β}
    (hfirst : ∀ o, first o ↔ first' o)
    (hnext : ∀ a m, first' (.done a m) → (next a m o ↔ next' a m o)) :
    InTurn first next o ↔ InTurn first' next' o := by
  unfold InTurn
  simp only [hfirst]
  refine or_congr_left (exists_congr fun a => exists_congr fun m => ?_)
  exact and_congr_right (hnext a m)

theorem inTurn_done (a : α) (m : Machine) (next : α → Machine → Outcome ε β → Prop)
    (o : Outcome ε β) : InTurn (· = .done a m) next o ↔ next a m o := by
  constructor
  · rintro (⟨_, _, ⟨⟩, hnext⟩ | ⟨_, _, ⟨⟩, -⟩)
    exact hnext
  · intro hnext
    exact Or.inl ⟨a, m, rfl, hnext⟩

/-- Three evaluations in turn may be grouped either way. -/
theorem inTurn_assoc (first : Outcome ε α → Prop) (next : α → Machine → Outcome ε β → Prop)
    (last : β → Machine → Outcome ε γ → Prop) (o : Outcome ε γ) :
    InTurn (InTurn first next) last o ↔
      InTurn first (fun a m => InTurn (next a m) last) o := by
  constructor
  · rintro (⟨b, m₂, ⟨a, m₁, hfirst, hnext⟩ | ⟨_, _, _, ⟨⟩⟩, hlast⟩ |
      ⟨e, m₂, ⟨a, m₁, hfirst, hnext⟩ | ⟨_, _, hfirst, ⟨⟩⟩, rfl⟩)
    · exact Or.inl ⟨a, m₁, hfirst, Or.inl ⟨b, m₂, hnext, hlast⟩⟩
    · exact Or.inl ⟨a, m₁, hfirst, Or.inr ⟨e, m₂, hnext, rfl⟩⟩
    · exact Or.inr ⟨e, m₂, hfirst, rfl⟩
  · rintro (⟨a, m₁, hfirst, ⟨b, m₂, hnext, hlast⟩ | ⟨e, m₂, hnext, rfl⟩⟩ | ⟨e, m₁, hfirst, rfl⟩)
    · exact Or.inl ⟨b, m₂, Or.inl ⟨a, m₁, hfirst, hnext⟩, hlast⟩
    · exact Or.inr ⟨e, m₂, Or.inl ⟨a, m₁, hfirst, hnext⟩, rfl⟩
    · exact Or.inr ⟨e, m₁, Or.inr ⟨e, m₁, hfirst, rfl⟩, rfl⟩

end InTurn

end Outcome

/-- A sequence gives a value if both of its parts do. -/
theorem Eval.bind_eq_done {α β : Type} {x : Eval α} {f : α → Eval β} {m m' : Machine} {b : β}
    (h : (x >>= f) m = .done b m') : ∃ a m₁, x m = .done a m₁ ∧ f a m₁ = .done b m' := by
  rw [Eval.bind_apply] at h
  cases hx : x m with
  | done a m₁ =>
    rw [hx] at h
    exact ⟨a, m₁, rfl, h⟩
  | failed e m₁ | unfinished =>
    rw [hx] at h
    cases h

/-- The depth is raised for an evaluation and lowered after it, however it ends. -/
theorem Eval.deeper_apply {α : Type} (x : Eval α) (m : Machine) :
    Eval.deeper x m =
      (x { m with depth := m.depth + 1 }).mapMachine fun m => { m with depth := m.depth - 1 } := by
  rw [Eval.deeper]
  cases x { m with depth := m.depth + 1 } <;> rfl

end Scriptlet
