import Scriptlet.Run
import Scriptlet.Proofs.Eval.Relocation
import Scriptlet.Proofs.Eval.Unrolling
import Scriptlet.Proofs.Parser.Recognition
import Scriptlet.Proofs.Parser.Relocation
import Scriptlet.Proofs.Token.Joined

/-! # Texts that run one after another

To run one text and then another is to run the two as one text, with a line break between them
(`run_joined`). The scanner reads the second text as it does alone, only lower; the parser splits
the statements at the line break unless an opening parenthesis after it continues an expression
before it; and the evaluator goes on with the statements of the second as it does in a run of its
own.

The runs differ in the lines of the positions that the second text brings in, which are in errors,
in the bodies of functions and with printed lines. To say which positions these are, they are marked
before the program runs, and the mark is read off the outcome.
-/

namespace Scriptlet

/-! ## Blocks one after another -/

section Blocks

variable {limit : Nat} {scope : ScopeId} {p p' : Program} {m : Machine}

/-- Runs a program and then, if it succeeds, another one in the same scope. -/
def Program.evalInTurn (limit fuel : Nat) (scope : ScopeId) (p p' : Program) : Eval Value := do
  let _ ← p.eval limit fuel scope
  p'.eval limit fuel scope

theorem Program.steady_evalInTurn (limit : Nat) (scope : ScopeId) (p p' : Program) (m : Machine) :
    Steady fun fuel => p.evalInTurn limit fuel scope p' m := by
  intro fuel fuel' hle hfinished
  have hmore := (simulation_approximates limit).program hle scope
  exact (approximates_bind (hmore p) (fun _ => hmore p') m).resolve_left hfinished

/-- Two programs in turn end as the longer program does. -/
theorem Program.settles_append (hp' : p' ≠ []) {o : Outcome RuntimeError Value} :
    Settles (fun fuel => (p ++ p').eval limit fuel scope m) o ↔
      Settles (fun fuel => p.evalInTurn limit fuel scope p' m) o := by
  have hturns : Ends (fun fuel => p.evalInTurn limit fuel scope p') m o ↔
      Outcome.InTurn (Ends (evalBlock limit · scope p .nil) m)
        (fun _ m₁ => Ends (evalBlock limit · scope p' .nil) m₁) o :=
    ends_bind (growing_evalBlock limit scope p .nil)
      fun _ => growing_evalBlock limit scope p' .nil
  have happend : Ends (evalBlock limit · scope (p ++ p') .nil) m o ↔
      Outcome.InTurn (Ends (evalBlock limit · scope p .nil) m)
        (fun _ m₁ => Ends (evalBlock limit · scope p' .nil) m₁) o := by
    rw [ends_evalBlock_append]
    -- a program with statements does not give the value that it starts with
    exact Outcome.inTurn_congr (fun _ => Iff.rfl)
      fun _ _ _ => ends_evalBlock_congr fun hnil => absurd hnil hp'
  exact happend.trans hturns.symm

end Blocks

/-! ## Marked positions -/

namespace Position

/-- A position with a mark or without one. The mark is kept in the line, whose number is doubled. -/
def mark (marked : Bool) (p : Position) : Position :=
  ⟨2 * p.line + marked.toNat, p.column⟩

/-- The position without its mark, some lines further down if it had one. -/
def unmark (lines : Nat) (p : Position) : Position :=
  ⟨p.line / 2 + p.line % 2 * lines, p.column⟩

theorem unmark_mark_false (lines : Nat) : unmark lines ∘ mark false = id := by
  funext p
  simp [unmark, mark]

theorem unmark_mark_true (lines : Nat) : unmark lines ∘ mark true = lower lines := by
  funext p
  have hhalf : (2 * p.line + 1) / 2 = p.line := by omega
  have hodd : (2 * p.line + 1) % 2 = 1 := by omega
  simp [unmark, mark, lower, hhalf, hodd]

theorem lower_zero : lower 0 = id := rfl

end Position

/-- Runs two programs as one, with all the positions of the second one marked. -/
def Program.evalMarked (limit : Nat) (scope : ScopeId) (p p' : Program) (m : Machine) (fuel : Nat) :
    Outcome RuntimeError Value :=
  Program.eval limit fuel scope (p.relocate (.mark false) ++ p'.relocate (.mark true))
    (m.relocate (.mark false))

/-- The outcome with the marks read off: marked positions are lowered. -/
theorem Program.eval_lower (limit fuel : Nat) (scope : ScopeId) (p p' : Program) (m : Machine)
    (lines : Nat) :
    (p ++ p'.relocate (.lower lines)).eval limit fuel scope m =
      (p.evalMarked limit scope p' m fuel).relocate (.unmark lines) := by
  have hprogram : (p.relocate (.mark false) ++ p'.relocate (.mark true)).relocate (.unmark lines) =
      p ++ p'.relocate (.lower lines) := by
    rw [Program.relocate, List.map_append, ← Program.relocate, ← Program.relocate,
      Program.relocate_relocate, Program.relocate_relocate, Position.unmark_mark_false,
      Position.unmark_mark_true, Program.relocate_id]
  have hmachine : (m.relocate (.mark false)).relocate (.unmark lines) = m := by
    rw [Machine.relocate_relocate, Position.unmark_mark_false, Machine.relocate_id]
  rw [Program.evalMarked, ← Program.eval_relocate, hprogram, hmachine]

/-! ## Texts one after another -/

/-- A text with its tokens and the program that they form. -/
def Parses (source : String) (ts : List Token) (p : Program) : Prop :=
  Token.scan source = .ok ts ∧ Program.ofTokens ts = .ok p

theorem run_of_parses {source : String} {ts : List Token} {p : Program} (h : Parses source ts p)
    (limit fuel : Nat) (scope : ScopeId) (m : Machine) :
    run limit fuel scope source m = (p.eval limit fuel scope m).mapError .running := by
  rw [run, h.1]
  simp only [h.2]

/-- Runs a text and then, if it succeeds, another one on the machine that it leaves. -/
def runInTurn (limit fuel : Nat) (scope : ScopeId) (source source' : String) (m : Machine) :
    Outcome Error Value :=
  match run limit fuel scope source m with
  | .done _ m' => run limit fuel scope source' m'
  | .failed e m' => .failed e m'
  | .unfinished => .unfinished

/-- The tokens in a text that stands below another one. -/
def Token.Relocation.below (above : List Char) : Token.Relocation where
  pos := .lower (Text.lineCount above)
  token := Token.below above
  kind_token _ := rfl
  pos_token _ := rfl

section Texts

variable {source source' : String} {ts ts' : List Token} {p p' : Program}

theorem runInTurn_of_parses (h : Parses source ts p) (h' : Parses source' ts' p')
    (limit fuel : Nat) (scope : ScopeId) (m : Machine) :
    runInTurn limit fuel scope source source' m =
      (p.evalInTurn limit fuel scope p' m).mapError .running := by
  rw [runInTurn, run_of_parses h, Program.evalInTurn, Eval.bind_apply]
  cases p.eval limit fuel scope m with
  | done v m' => exact run_of_parses h' limit fuel scope m'
  | failed e m' | unfinished => rfl

/-- Two texts with a line break between them form the statements of the first and then those of the
second, unless an opening parenthesis continues the first. -/
theorem Parses.join (h : Parses source ts p) (h' : Parses source' ts' p')
    (hapart : ts.dropLast = [] ∨ Grammar.Apart ts.dropLast ts') :
    ∃ us, Parses (source ++ "\n" ++ source') us
      (p ++ p'.relocate (.lower (Text.lineCount source.toList))) := by
  obtain ⟨u, rfl, hu⟩ := Token.scan_eq_ok h.1
  obtain ⟨v, rfl, hv⟩ := Token.scan_eq_ok h'.1
  have hmarks {text : List Char} {w : List Token} (hw : Token.Tiles [] text w []) :
      ∀ t ∈ w, t.kind ≠ .endOfFile := by
    intro t ht
    obtain ⟨_, _, _, _, -, hlexeme, rfl⟩ := hw.exists_lexeme ht
    exact hlexeme.1.kind_ne_endOfFile
  rw [List.dropLast_concat] at hapart
  have hp := Grammar.statements_of_ofTokens (hmarks hu) rfl h.2
  -- the second text is parsed below the first as it is alone
  have hbelow := Parser.ofTokens_relocate (.below source.toList) (v ++ [Token.atEnd source'.toList])
  rw [h'.2, List.map_append] at hbelow
  have hmarks' : ∀ t ∈ v.map (Token.below source.toList), t.kind ≠ .endOfFile := by
    intro t ht
    obtain ⟨t', ht', rfl⟩ := List.mem_map.mp ht
    exact hmarks hv t' ht'
  have hp' := Grammar.statements_of_ofTokens hmarks' rfl hbelow
  have hstatements := hp.append hp' (hapart.imp id fun hends t ht hopen => by
    cases v with
    | nil => cases ht
    | cons t' v =>
      cases ht
      exact hends t' rfl hopen)
  refine ⟨_, (Token.scan_join h.1).trans (by rw [h'.1]), ?_⟩
  rw [List.map_append, ← List.append_assoc]
  exact hstatements.ofTokens rfl

/-- Running two texts one after another is running them as one text with a line break between them,
if the second has a statement and does not continue the first with an opening parenthesis. Both runs
end as one run does in which the positions that stem from the second text are marked: the texts in
turn with the marks left out, and the joined text with the marked positions lower by the lines of
the first text. All else is the same: the value or the cause of the error, the output and the store.
The host is the standard one, whose functions use the position of a call for their errors and their
output only; another host could return the line that it is called from. -/
theorem run_joined (h : Parses source ts p) (h' : Parses source' ts' p') (hp' : p' ≠ [])
    (hapart : (∀ t ∈ ts'.head?, t.kind ≠ .symbol .leftParen) ∨ ts.dropLast = [] ∨
      ∃ t ∈ ts.dropLast.getLast?, t.kind = .symbol .semicolon ∨ t.kind = .symbol .rightBrace)
    (limit : Nat) (scope : ScopeId) (m : Machine) :
    (∀ o, Settles (fun fuel => run limit fuel scope (source ++ "\n" ++ source') m) o ↔
        ∃ marked, Settles (p.evalMarked limit scope p' m) marked ∧
          o = (marked.relocate (.unmark (source.toList.count '\n' + 1))).mapError .running) ∧
      ∀ o, Settles (fun fuel => runInTurn limit fuel scope source source' m) o ↔
        ∃ marked, Settles (p.evalMarked limit scope p' m) marked ∧
          o = (marked.relocate (.unmark 0)).mapError .running := by
  have hview (lines : Nat) (o : Outcome RuntimeError Value) :
      (o.relocate (.unmark lines)).mapError Error.running = .unfinished ↔ o = .unfinished := by
    cases o <;> simp [Outcome.relocate, Outcome.mapParts, Outcome.mapError]
  have hmarked : Steady (p.evalMarked limit scope p' m) := steady_eval _ _ _ _
  refine ⟨fun o => ?_, fun o => ?_⟩
  · have hjoin : ts.dropLast = [] ∨ Grammar.Apart ts.dropLast ts' := by
      rcases hapart with hfirst | hnil | hlast
      · exact Or.inr fun t ht hopen => absurd hopen (hfirst t ht)
      · exact Or.inl hnil
      · exact Or.inr fun _ _ _ => hlast
    obtain ⟨us, hus⟩ := h.join h' hjoin
    simp only [run_of_parses hus, Program.eval_lower]
    exact hmarked.settles_map (hview _)
  · have hmapError (o : Outcome RuntimeError Value) :
        o.mapError Error.running = .unfinished ↔ o = .unfinished := by
      cases o <;> simp [Outcome.mapError]
    have hlower (fuel : Nat) := Program.eval_lower limit fuel scope p p' m 0
    simp only [Position.lower_zero, Program.relocate_id] at hlower
    simp only [runInTurn_of_parses h h']
    rw [(p.steady_evalInTurn limit scope p' m).settles_map hmapError]
    simp only [← Program.settles_append hp']
    rw [← (steady_eval limit scope (p ++ p') m).settles_map hmapError]
    simp only [hlower]
    exact hmarked.settles_map (hview 0)

/-- Whether a text has tokens and a program that pass a test. -/
def parsesWith (test : List Token → Program → Bool) (source : String) : Bool :=
  match Token.scan source with
  | .ok ts =>
    match Program.ofTokens ts with
    | .ok p => test ts p
    | .error _ => false
  | .error _ => false

theorem exists_parses {test : List Token → Program → Bool} (h : parsesWith test source = true) :
    ∃ ts p, Parses source ts p ∧ test ts p = true := by
  rw [parsesWith] at h
  cases hscan : Token.scan source with
  | error e =>
    rw [hscan] at h
    cases h
  | ok ts =>
    rw [hscan] at h
    cases hparse : Program.ofTokens ts with
    | error e =>
      simp only [hparse] at h
      cases h
    | ok p =>
      simp only [hparse] at h
      exact ⟨ts, p, ⟨hscan, hparse⟩, h⟩

/-- A function of the first text, which ends in a comment, calls one of the second, which fails. -/
theorem callBack_joined :
    ∃ ts p ts' p', Parses "fn f(g) \x7b\n g() \x7d @ calls" ts p ∧
      Parses "fn h() \x7b y \x7d\nf(h)" ts' p' ∧
      p' ≠ [] ∧ (∀ t ∈ ts'.head?, t.kind ≠ .symbol .leftParen) ∧
      ∀ o, Settles (fun fuel => run 8 fuel Machine.firstScope
          ("fn f(g) \x7b\n g() \x7d @ calls" ++ "\n" ++ "fn h() \x7b y \x7d\nf(h)")
          (.global .none)) o ↔
        ∃ marked, Settles (p.evalMarked 8 Machine.firstScope p' (.global .none)) marked ∧
          o = (marked.relocate (.unmark 2)).mapError .running := by
  have hfirst : parsesWith (fun _ _ => true) "fn f(g) \x7b\n g() \x7d @ calls" = true := by
    decide +kernel
  have hsecond : parsesWith
      (fun ts p => !p.isEmpty && ts.head?.all fun t => !Parser.isSymbol .leftParen t)
      "fn h() \x7b y \x7d\nf(h)" = true := by
    decide +kernel
  obtain ⟨ts, p, h, -⟩ := exists_parses hfirst
  obtain ⟨ts', p', h', htest⟩ := exists_parses hsecond
  rw [Bool.and_eq_true] at htest
  have hp' : p' ≠ [] := by
    rintro rfl
    cases htest.1
  have hopen : ∀ t ∈ ts'.head?, t.kind ≠ .symbol .leftParen := by
    intro t ht hkind
    have hother := (Option.all_eq_true _ _).mp htest.2 t ht
    rw [Parser.isSymbol_iff.mpr hkind] at hother
    cases hother
  refine ⟨ts, p, ts', p', h, h', hp', hopen, ?_⟩
  exact (run_joined h h' hp' (Or.inl hopen) 8 Machine.firstScope (.global .none)).1

end Texts

end Scriptlet
