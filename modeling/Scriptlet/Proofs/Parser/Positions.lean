import Scriptlet.Proofs.Parser.Relocation

/-! # Positions that parsers report

From tokens up to and with the end of a text, a parser reports errors at tokens only, and a tree has
the positions of tokens. No parser is looked at here: if all positions but those of the tokens are
moved, then the tokens stay where they are, and so the tree and the error do
(`ofTokens_relocate`). The error of a list that ends too early, which has no token, does not occur
(`marked_program`).
-/

namespace Scriptlet

/-- Moves the positions without the condition, each to the line below, and no others. -/
def Token.Relocation.movesRest (P : Position → Prop) [DecidablePred P] : Token.Relocation where
  pos p := if P p then p else { p with line := p.line + 1 }
  token t := { t with pos := if P t.pos then t.pos else { t.pos with line := t.pos.line + 1 } }
  kind_token _ := rfl
  pos_token _ := rfl

/-- A position that stays where it is has the condition. -/
theorem Token.Relocation.of_isFixedPt {P : Position → Prop} [DecidablePred P] {p : Position}
    (h : Function.IsFixedPt (movesRest P).pos p) : P p := by
  by_contra hp
  have hline : p.line + 1 = p.line := congrArg Position.line ((if_neg hp).symm.trans h)
  exact Nat.succ_ne_self _ hline

namespace Parser

/-- Tokens up to and with the end of a text, at positions that satisfy a condition. -/
structure Complete (P : Position → Prop) (ts : List Token) : Prop where
  pos : ∀ t ∈ ts, P t.pos
  ends : ∃ t ∈ ts, t.kind = .endOfFile

variable {P : Position → Prop} {ts : List Token}

/-- The tokens stay where they are when all other positions are moved. -/
theorem Complete.map_movesRest [DecidablePred P] (h : Complete P ts) :
    ts.map (Token.Relocation.movesRest P).token = ts := by
  have hfixed : ∀ t ∈ ts, (Token.Relocation.movesRest P).token t = t :=
    fun t ht => congrArg ({ t with pos := · }) (if_pos (h.pos t ht))
  exact (List.map_congr_left hfixed).trans (List.map_id ts)

/-- The positions in a program are those of its tokens. -/
theorem within_of_ofTokens {p : Program} (hts : Complete P ts) (h : Program.ofTokens ts = .ok p) :
    ∀ s ∈ p, s.Within P := by
  classical
  have hmoved := ofTokens_relocate (.movesRest P) ts
  rw [hts.map_movesRest, h] at hmoved
  have hfixed := List.map_inj_left.mp ((Except.ok.inj hmoved).symm.trans (List.map_id p).symm)
  exact fun s hs => (Stmt.within_of_relocate_eq (hfixed s hs)).mono fun _ =>
    Token.Relocation.of_isFixedPt

/-- An error of parsing stands at a token. -/
theorem pos_of_ofTokens {e : SyntaxError} (hts : Complete P ts)
    (h : Program.ofTokens ts = .error e) : P e.pos := by
  classical
  have htoken : e.AtToken := atToken_of_ofTokens hts.ends h
  have hmoved := ofTokens_relocate (.movesRest P) ts
  rw [hts.map_movesRest, h] at hmoved
  have hfixed := (Except.error.inj hmoved).symm
  rw [htoken.relocate_eq] at hfixed
  exact Token.Relocation.of_isFixedPt (congrArg SyntaxError.pos hfixed)

end Parser

end Scriptlet
