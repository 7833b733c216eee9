import Scriptlet.Run
import Scriptlet.Proofs.Eval.Relocation
import Scriptlet.Proofs.Parser.Printing
import Scriptlet.Proofs.Parser.Relocation
import Scriptlet.Proofs.Token.Nesting

/-! # The layout of a text does not matter

Where tokens stand decides where errors are reported and nothing else. Tokens of the same kinds form
programs that are equal up to positions, and such programs run alike on machines that are equal up
to positions: with the same amount of fuel both finish or neither does, with the same values,
errors, output and stores up to positions (`positions_inert`). Each is an instance of relocation,
which commutes with parsing and with running, for the relocation that forgets all positions.
-/

namespace Scriptlet

/-! ## Forgetting positions is a relocation -/

@[simp] theorem Expr.eraseAllPositions_eq_map (es : List Expr) :
    Expr.eraseAllPositions es = es.map Expr.erasePositions := by
  induction es with
  | nil => rfl
  | cons e es ih => rw [Expr.eraseAllPositions, ih, List.map_cons]

@[simp] theorem Stmt.eraseAllPositions_eq_map (ss : List Stmt) :
    Stmt.eraseAllPositions ss = ss.map Stmt.erasePositions := by
  induction ss with
  | nil => rfl
  | cons s ss ih => rw [Stmt.eraseAllPositions, ih, List.map_cons]

/-- To forget positions is to move all of them to one place. -/
theorem Expr.relocate_nowhere (e : Expr) : e.relocate (fun _ => .nowhere) = e.erasePositions := by
  induction e using Expr.induction with
  | call callee arguments p ihCallee ihArguments =>
    have harguments := List.map_congr_left ihArguments
    simp [Expr.relocate, Expr.erasePositions, ihCallee, harguments]
  | assign _ _ _ ihLeft ihRight | binary _ _ _ _ ihLeft ihRight =>
    simp [Expr.relocate, Expr.erasePositions, ihLeft, ihRight]
  | not _ _ ih => simp [Expr.relocate, Expr.erasePositions, ih]
  | identifier _ _ | number _ _ | bool _ _ => rfl

theorem Stmt.relocate_nowhere (s : Stmt) : s.relocate (fun _ => .nowhere) = s.erasePositions := by
  induction s using Stmt.induction with
  | declare x value constant p =>
    cases value <;> simp [Stmt.relocate, Stmt.erasePositions, Expr.relocate_nowhere]
  | function _ _ _ _ ih | loop _ _ _ ih | whileLoop _ _ _ ih =>
    have hbody := List.map_congr_left ih
    simp [Stmt.relocate, Stmt.erasePositions, Expr.relocate_nowhere, hbody]
  | expr e => simp [Stmt.relocate, Stmt.erasePositions, Expr.relocate_nowhere]

theorem Program.relocate_nowhere (p : Program) :
    p.relocate (fun _ => .nowhere) = p.erasePositions := by
  rw [Program.erasePositions, Stmt.eraseAllPositions_eq_map]
  exact List.map_congr_left fun s _ => s.relocate_nowhere

/-- A value with all positions forgotten. -/
def Value.erasePositions (v : Value) : Value :=
  v.relocate fun _ => .nowhere

/-- A machine with all positions forgotten: those in the bodies of its functions, and those that its
lines were printed at. -/
def Machine.erasePositions (m : Machine) : Machine :=
  m.relocate fun _ => .nowhere

/-- Tokens of the same kinds without their places. -/
def Token.Relocation.forget : Token.Relocation where
  pos _ := .nowhere
  token t := ⟨t.kind, .nowhere, ⟨0, 0⟩⟩
  kind_token _ := rfl
  pos_token _ := rfl

/-- Tokens without their places are their kinds. -/
theorem Token.Relocation.map_forget {ts ts' : List Token}
    (h : ts.map Token.kind = ts'.map Token.kind) :
    ts.map forget.token = ts'.map forget.token := by
  have hkinds (ts : List Token) :
      ts.map forget.token = (ts.map Token.kind).map fun kind => ⟨kind, .nowhere, ⟨0, 0⟩⟩ := by
    rw [List.map_map]
    rfl
  rw [hkinds, hkinds, h]

/-! ## Outcomes up to positions -/

/-- Errors of the same kind with the same fields, wherever they stand. -/
def Error.Alike : Error → Error → Prop
  | .scanning e, .scanning e' => e.fault = e'.fault
  | .parsing e, .parsing e' => e.cause = e'.cause
  | .running e, .running e' => e.cause = e'.cause
  | _, _ => False

/-- Two runs have ended in the same way up to positions, or neither has ended. -/
def Outcome.Alike {ε : Type} (alike : ε → ε → Prop) : Outcome ε Value → Outcome ε Value → Prop
  | .done v m, .done v' m' =>
    v.erasePositions = v'.erasePositions ∧ m.erasePositions = m'.erasePositions
  | .failed e m, .failed e' m' => alike e e' ∧ m.erasePositions = m'.erasePositions
  | .unfinished, .unfinished => True
  | _, _ => False

/-- Outcomes that become equal when positions are forgotten are alike. -/
theorem Outcome.alike_of_relocate {o o' : Outcome RuntimeError Value}
    (h : o.relocate (fun _ => .nowhere) = o'.relocate fun _ => .nowhere) :
    o.Alike (fun e e' => e.cause = e'.cause) o' := by
  cases o with
  | done v m =>
    cases o' with
    | done v' m' =>
      injection h with hv hm
      exact ⟨hv, hm⟩
    | failed _ _ | unfinished => cases h
  | failed e m =>
    cases o' with
    | failed e' m' =>
      injection h with he hm
      injection he with hcause
      exact ⟨hcause, hm⟩
    | done _ _ | unfinished => cases h
  | unfinished =>
    cases o' with
    | unfinished => trivial
    | done _ _ | failed _ _ => cases h

theorem Outcome.Alike.running {o o' : Outcome RuntimeError Value}
    (h : o.Alike (fun e e' => e.cause = e'.cause) o') :
    (o.mapError Error.running).Alike Error.Alike (o'.mapError Error.running) := by
  cases o <;> cases o' <;> exact h

/-! ## Parsing, running and printing -/

/-- Tokens of the same kinds form the same program up to positions, or are refused for the same
cause. -/
theorem Program.ofTokens_alike {ts ts' : List Token} (h : ts.map Token.kind = ts'.map Token.kind) :
    (∀ p, Program.ofTokens ts = .ok p →
        ∃ p', Program.ofTokens ts' = .ok p' ∧ p'.erasePositions = p.erasePositions) ∧
      ∀ e, Program.ofTokens ts = .error e →
        ∃ e', Program.ofTokens ts' = .error e' ∧ e'.cause = e.cause := by
  have hforget := Parser.ofTokens_relocate .forget ts
  rw [Token.Relocation.map_forget h, Parser.ofTokens_relocate .forget ts'] at hforget
  refine ⟨fun p hp => ?_, fun e he => ?_⟩
  · rw [hp] at hforget
    cases hp' : Program.ofTokens ts' with
    | ok p' =>
      rw [hp'] at hforget
      injection hforget with hsame
      refine ⟨p', rfl, ?_⟩
      rw [← p.relocate_nowhere, ← p'.relocate_nowhere]
      exact hsame
    | error e' =>
      rw [hp'] at hforget
      cases hforget
  · rw [he] at hforget
    cases he' : Program.ofTokens ts' with
    | ok p' =>
      rw [he'] at hforget
      cases hforget
    | error e' =>
      rw [he'] at hforget
      injection hforget with hsame
      refine ⟨e', rfl, ?_⟩
      rw [← e.cause_relocate, ← e'.cause_relocate, hsame]

/-- Both runs are relocated to the same run, on the machine without positions. -/
theorem Program.eval_alike {p p' : Program} {m m' : Machine}
    (hp : p.erasePositions = p'.erasePositions) (hm : m.erasePositions = m'.erasePositions)
    (limit fuel : Nat) (scope : ScopeId) :
    (p.eval limit fuel scope m).Alike (fun e e' => e.cause = e'.cause)
      (p'.eval limit fuel scope m') := by
  apply Outcome.alike_of_relocate
  calc (p.eval limit fuel scope m).relocate (fun _ => .nowhere)
      = p.erasePositions.eval limit fuel scope m.erasePositions := by
        rw [← Program.eval_relocate, p.relocate_nowhere]
        rfl
    _ = p'.erasePositions.eval limit fuel scope m'.erasePositions := by rw [hp, hm]
    _ = (p'.eval limit fuel scope m').relocate (fun _ => .nowhere) := by
        rw [← Program.eval_relocate, p'.relocate_nowhere]
        rfl

/-- The text that has been printed has no positions in it. -/
theorem Sink.text_relocate (f : Position → Position) (s : Sink) : (s.relocate f).text = s.text := by
  rw [Sink.text, Sink.text, Sink.relocate, Array.foldl_map]

/-- Positions are inert. Tokens of the same kinds, wherever they stand, form the same program up to
positions or are refused for the same cause. Programs and machines that are equal up to positions
run alike, however much fuel they have. So texts with the same kinds of tokens run alike, however
they are laid out; and machines that are equal up to positions have printed the same text. The runs
are those with the standard host, whose functions use the position of a call for their errors and
their output only; another host could return the position that it is given. -/
theorem positions_inert :
    (∀ ts ts' : List Token, ts.map Token.kind = ts'.map Token.kind →
      (∀ p, Program.ofTokens ts = .ok p →
          ∃ p', Program.ofTokens ts' = .ok p' ∧ p'.erasePositions = p.erasePositions) ∧
        ∀ e, Program.ofTokens ts = .error e →
          ∃ e', Program.ofTokens ts' = .error e' ∧ e'.cause = e.cause) ∧
    (∀ (p p' : Program) (m m' : Machine) (limit fuel : Nat) (scope : ScopeId),
      p.erasePositions = p'.erasePositions → m.erasePositions = m'.erasePositions →
      (p.eval limit fuel scope m).Alike (fun e e' => e.cause = e'.cause)
        (p'.eval limit fuel scope m')) ∧
    (∀ (source source' : String) (ts ts' : List Token) (m m' : Machine) (limit fuel : Nat)
      (scope : ScopeId),
      Token.scan source = .ok ts → Token.scan source' = .ok ts' →
      ts.map Token.kind = ts'.map Token.kind → m.erasePositions = m'.erasePositions →
      (run limit fuel scope source m).Alike Error.Alike (run limit fuel scope source' m')) ∧
    ∀ m m' : Machine, m.erasePositions = m'.erasePositions → m.sink.text = m'.sink.text := by
  refine ⟨fun ts ts' h => Program.ofTokens_alike h,
    fun p p' m m' limit fuel scope hp hm => Program.eval_alike hp hm limit fuel scope, ?_, ?_⟩
  · intro source source' ts ts' m m' limit fuel scope hscan hscan' hkinds hm
    rw [run, run, hscan, hscan']
    obtain ⟨hok, herror⟩ := Program.ofTokens_alike hkinds
    cases hparse : Program.ofTokens ts with
    | error e =>
      obtain ⟨e', hparse', hcause⟩ := herror e hparse
      simp only [hparse, hparse']
      exact ⟨hcause.symm, hm⟩
    | ok p =>
      obtain ⟨p', hparse', hp⟩ := hok p hparse
      simp only [hparse, hparse']
      exact (Program.eval_alike hp.symm hm limit fuel scope).running
  · intro m m' h
    rw [← m.sink.text_relocate fun _ => .nowhere, ← m'.sink.text_relocate fun _ => .nowhere]
    exact congrArg (fun m => m.sink.text) h

/-- A call on one line. -/
def tightCall : String := "f(x)"

/-- The same call with a line comment, a line break and a block comment in it. -/
def wideCall : String := "f@é\n(x#|∂|#)"

/-- The kinds of the tokens of both texts. -/
def callKinds : List Token.Kind :=
  [.identifier "f", .symbol .leftParen, .identifier "x", .symbol .rightParen, .endOfFile]

/-- A machine with a function whose body stands at the given position, and with one line of output
that was printed there. The body uses a name that is not declared. -/
def strayName (pos : Position) : Machine where
  store := ⟨#[⟨[("f", ⟨.function ⟨"f", ["y"], [.expr (.identifier "z" pos)], 0⟩, false⟩),
    ("x", ⟨.bool true, false⟩)], none⟩]⟩
  sink := { Sink.fresh .none with lines := #[⟨"1", pos⟩] }
  depth := 0
  deepest := 0

theorem strayName_alike (pos pos' : Position) :
    (strayName pos).erasePositions = (strayName pos').erasePositions := by
  simp [Machine.erasePositions, Machine.relocate, strayName, Store.relocate, Sink.relocate,
    Scope.relocate, Binding.relocate, Value.relocate, Program.relocate, Stmt.relocate,
    Expr.relocate]

theorem exists_scan_tightCall :
    ∃ ts, Token.scan tightCall = .ok ts ∧ ts.map Token.kind = callKinds := by
  have hname := @Token.Reaches.lexeme tightCall.toList [] [] _ 'f' (.identifier "f") [] .start rfl
  have hopen := hname.lexeme (w := []) rfl
  have hargument := hopen.lexeme (w := []) rfl
  have hclose := hargument.lexeme (w := []) rfl
  exact ⟨_, hclose.scan_eq.trans (Token.scanFrom_nil _ _), rfl⟩

theorem exists_scan_wideCall :
    ∃ ts, Token.scan wideCall = .ok ts ∧ ts.map Token.kind = callKinds := by
  have hname := @Token.Reaches.lexeme wideCall.toList [] [] _ 'f' (.identifier "f") [] .start rfl
  have hcomment := hname.trivia (w := ['é']) rfl
  have hbreak := hcomment.trivia (w := []) rfl
  have hopen := hbreak.lexeme (w := []) rfl
  have hargument := hopen.lexeme (w := []) rfl
  have hblock := hargument.trivia (w := ['|', '∂', '|', '#']) rfl
  have hclose := hblock.lexeme (w := []) rfl
  exact ⟨_, hclose.scan_eq.trans (Token.scanFrom_nil _ _), rfl⟩

/-- Both texts are run on machines whose function stands in different places. The runs fail there,
and in the same way otherwise. -/
theorem laidOutCalls_inert :
    ∃ ts ts' p p', Token.scan tightCall = .ok ts ∧ Token.scan wideCall = .ok ts' ∧
      ts.map Token.kind = ts'.map Token.kind ∧
      Program.ofTokens ts = .ok p ∧ Program.ofTokens ts' = .ok p' ∧
      p.erasePositions = p'.erasePositions ∧
      (strayName ⟨7, 1⟩).erasePositions = (strayName ⟨8, 5⟩).erasePositions ∧
      (p.eval 4 9 0 (strayName ⟨7, 1⟩)).Alike (fun e e' => e.cause = e'.cause)
        (p'.eval 4 9 0 (strayName ⟨8, 5⟩)) ∧
      (run 4 9 0 tightCall (strayName ⟨7, 1⟩)).Alike Error.Alike
        (run 4 9 0 wideCall (strayName ⟨8, 5⟩)) ∧
      (run 4 9 0 tightCall (strayName ⟨7, 1⟩)).failsWith
        (fun e => e.category = .runtime ∧ e.pos = ⟨7, 1⟩) = true ∧
      (run 4 9 0 wideCall (strayName ⟨8, 5⟩)).failsWith
        (fun e => e.category = .runtime ∧ e.pos = ⟨8, 5⟩) = true ∧
      (strayName ⟨7, 1⟩).sink.text = (strayName ⟨8, 5⟩).sink.text := by
  obtain ⟨ts, hscan, hkinds⟩ := exists_scan_tightCall
  obtain ⟨ts', hscan', hkinds'⟩ := exists_scan_wideCall
  have hsame : ts.map Token.kind = ts'.map Token.kind := hkinds.trans hkinds'.symm
  have hmachines : (strayName ⟨7, 1⟩).erasePositions = (strayName ⟨8, 5⟩).erasePositions :=
    strayName_alike _ _
  have hfails : (run 4 9 0 tightCall (strayName ⟨7, 1⟩)).failsWith
      (fun e => e.category = .runtime ∧ e.pos = ⟨7, 1⟩) = true := by
    decide +kernel
  have hfails' : (run 4 9 0 wideCall (strayName ⟨8, 5⟩)).failsWith
      (fun e => e.category = .runtime ∧ e.pos = ⟨8, 5⟩) = true := by
    decide +kernel
  obtain ⟨htokens, hprograms, htexts, houtput⟩ := positions_inert
  cases hparse : Program.ofTokens ts with
  | error e =>
    rw [run, hscan] at hfails
    simp only [hparse] at hfails
    have hcategory : e.cause.category = .runtime := (of_decide_eq_true hfails).1
    cases hcause : e.cause <;> rw [hcause] at hcategory <;> cases hcategory
  | ok p =>
    obtain ⟨p', hparse', hp⟩ := (htokens ts ts' hsame).1 p hparse
    exact ⟨ts, ts', p, p', hscan, hscan', hsame, hparse, hparse', hp.symm, hmachines,
      hprograms p p' _ _ 4 9 0 hp.symm hmachines,
      htexts tightCall wideCall ts ts' _ _ 4 9 0 hscan hscan' hsame hmachines, hfails, hfails',
      houtput _ _ hmachines⟩

end Scriptlet
