import Scriptlet.Proofs.Eval.Confined
import Scriptlet.Proofs.Parser.Positions
import Scriptlet.Proofs.Token.Tiling

/-! # Where the errors of a run stand

A text that is run brings the positions of its tokens with it. An error of parsing stands at one of
them, an error of running at one of them or at a position that a function in the store brought
before, and the functions that the run leaves have no other positions (`run_stays`). A new machine
has no functions of programs, so there the positions are those of the text alone.
-/

namespace Scriptlet

/-- The positions of the tokens of a text, that of its end included. -/
def Token.Marks (source : String) (p : Position) : Prop :=
  ∃ ts, Token.scan source = .ok ts ∧ ∃ t ∈ ts, t.pos = p

/-- The tokens of a text are complete. -/
theorem Token.complete_scan {source : String} {ts : List Token} (h : Token.scan source = .ok ts) :
    Parser.Complete (Token.Marks source) ts := by
  obtain ⟨body, rfl, -⟩ := Token.scan_eq_ok h
  exact ⟨fun t ht => ⟨_, h, t, ht, rfl⟩, Token.atEnd source.toList, by simp, rfl⟩

/-- A token stands in its text or at its end. -/
theorem Token.Marks.exists_place {source : String} {p : Position} (h : Token.Marks source p) :
    ∃ before after, source.toList = before ++ after ∧ p = Position.after before := by
  obtain ⟨ts, hts, t, ht, rfl⟩ := h
  obtain ⟨before, after, hsource, -, hpos⟩ := Token.exists_place_of_mem_scan hts ht
  exact ⟨before, after, hsource, hpos⟩

/-- Where an error stands that a text gives when it is run, if the functions in the store have
positions that satisfy `Q`. -/
inductive Error.Stands (Q : Position → Prop) (source : String) : Error → Prop
  | scanning {e : Token.ScanError} : Token.scan source = .error e → Stands Q source (.scanning e)
  | parsing {e : SyntaxError} : Token.Marks source e.pos → Stands Q source (.parsing e)
  | running {e : RuntimeError} : Q e.pos → Stands Q source (.running e)

/-- What running a text leaves: functions with positions that satisfy `Q`, and an error that stands
accordingly. -/
def RunStays (Q : Position → Prop) (source : String) : Outcome Error Value → Prop
  | .done _ m => m.store.In (.within Q)
  | .failed e m => m.store.In (.within Q) ∧ e.Stands Q source
  | .unfinished => True

theorem run_stays {Q : Position → Prop} {source : String}
    (hsource : ∀ p, Token.Marks source p → Q p) {m : Machine} (hm : m.store.In (.within Q))
    (limit fuel : Nat) (scope : ScopeId) :
    RunStays Q source (run limit fuel scope source m) := by
  rw [run]
  cases hscan : Token.scan source with
  | error e => exact ⟨hm, .scanning hscan⟩
  | ok ts =>
    have hcomplete := Token.complete_scan hscan
    cases hparse : Program.ofTokens ts with
    | error e =>
      simp only [hparse]
      exact ⟨hm, .parsing (Parser.pos_of_ofTokens hcomplete hparse)⟩
    | ok p =>
      simp only [hparse]
      have hp : ∀ s ∈ p, s.Within Q :=
        fun s hs => (Parser.within_of_ofTokens hcomplete hparse s hs).mono hsource
      have hend := Program.keeps (confinement (.within Q)) () hp limit fuel scope trivial m hm
      cases heval : p.eval limit fuel scope m with
      | done v m' =>
        rw [heval] at hend
        obtain ⟨_, -, hstore, -⟩ := hend
        exact hstore
      | failed e m' =>
        rw [heval] at hend
        obtain ⟨_, -, hstore, hpos⟩ := hend
        exact ⟨hstore, .running hpos⟩
      | unfinished => trivial

/-- Whether a run ends with an error at the given position. -/
def Outcome.failsAt {α : Type} (p : Position) : Outcome Error α → Bool
  | .failed e _ => e.pos = p
  | _ => false

theorem Outcome.eq_failed_of_failsAt {α : Type} {p : Position} {o : Outcome Error α}
    (h : o.failsAt p = true) : ∃ e m, o = .failed e m ∧ e.pos = p := by
  cases o with
  | failed e m => exact ⟨e, m, rfl, of_decide_eq_true h⟩
  | _ => cases h

end Scriptlet
