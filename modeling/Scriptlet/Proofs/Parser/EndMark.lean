import Scriptlet.Proofs.Parser.Progress
import Scriptlet.Proofs.Parser.Rejection

/-! # The mark at the end of a text

Parsers stop before the mark at the end of a text just as they stop where the tokens end. The two
differ only where one more token is needed: the mark is taken and found to be wrong, whereas without
it the list has run out. So the mark can be left away, and what comes after it does not matter
(`ofTokens_end_mark`).

Success and every failure but the last are already known by the tokens that were taken, whatever
comes after them, and a list with the mark does not run out.
-/

namespace Scriptlet

namespace Parser

open Grammar

variable {ts rest : List Token}

/-- A list with the mark at the end of the text does not run out. -/
theorem ne_endOfInput_of_mark {e : SyntaxError} (hend : ∃ t ∈ ts, t.kind = .endOfFile)
    (h : program ts = .error e rest) : e ≠ .endOfInput := by
  rintro rfl
  exact atToken_of_ofTokens hend (ofTokens_eq_error.mpr ⟨rest, h⟩) _ rfl

/-- A failure other than by running out of tokens does not depend on the tokens that are left. -/
theorem program_error_append {e : SyntaxError} (h : program ts = .error e rest)
    (he : e ≠ .endOfInput) (q : List Token) : program (ts ++ q) = .error e (rest ++ q) := by
  obtain ⟨w, rfl, hbreak⟩ := program_eq_error.mp ⟨h, he⟩
  rw [List.append_assoc]
  exact (program_eq_error.mpr ⟨w, rfl, hbreak⟩).1

/-- A program that ends before the mark does not depend on the tokens after the mark. -/
theorem program_ok_append {P : Program} (h : program ts = .ok P rest) (hrest : rest ≠ [])
    (q : List Token) : program (ts ++ q) = .ok P (rest ++ q) := by
  obtain ⟨w, rfl, hP, hend⟩ := program_eq_ok.mp h
  refine program_eq_ok.mpr ⟨w, List.append_assoc w rest q, hP, ?_⟩
  rw [atEnd_iff] at hend ⊢
  intro t ht
  exact hend t (mem_head?_of_append hrest ht)

/-- Without the mark at the end, tokens form the programs that they form with it. -/
theorem ofTokens_eq_ok_iff_mark {p : List Token} {mark : Token}
    (hp : ∀ t ∈ p, t.kind ≠ .endOfFile) (hmark : mark.kind = .endOfFile) (P : Program) :
    Program.ofTokens p = .ok P ↔ Program.ofTokens (p ++ [mark]) = .ok P := by
  constructor
  · intro h
    obtain ⟨rest, hrest⟩ := ofTokens_eq_ok.mp h
    obtain ⟨w, rfl, hP, hend⟩ := program_eq_ok.mp hrest
    -- a program takes all the tokens if there is no mark among them
    have hnil : rest = [] := by
      by_contra hne
      obtain ⟨t, rest, rfl⟩ := List.exists_cons_of_ne_nil hne
      exact hp t (by simp) (atEnd_iff.mp hend t rfl)
    rw [hnil, List.append_nil]
    exact hP.ofTokens hmark
  · intro h
    have hP := statements_of_ofTokens hp hmark h
    exact ofTokens_eq_ok.mpr ⟨[], program_eq_ok.mpr ⟨p, (List.append_nil p).symm, hP, rfl⟩⟩

/-- What comes after the mark does not matter. -/
theorem ofTokens_append_mark {p : List Token} {mark : Token} (hp : ∀ t ∈ p, t.kind ≠ .endOfFile)
    (hmark : mark.kind = .endOfFile) (q : List Token) :
    Program.ofTokens (p ++ [mark] ++ q) = Program.ofTokens (p ++ [mark]) := by
  cases h : program (p ++ [mark]) with
  | ok P rest =>
    have hP := statements_of_ofTokens hp hmark (ofTokens_eq_ok.mpr ⟨rest, h⟩)
    have hbefore : program (p ++ [mark]) = .ok P [mark] :=
      program_eq_ok.mpr ⟨p, rfl, hP, atEnd_iff.mpr (by simp [hmark])⟩
    rw [ofTokens_eq_ok.mpr ⟨[mark], hbefore⟩]
    exact ofTokens_eq_ok.mpr ⟨[mark] ++ q, program_ok_append hbefore (List.cons_ne_nil mark []) q⟩
  | error e rest =>
    have he := ne_endOfInput_of_mark ⟨mark, by simp, hmark⟩ h
    rw [ofTokens_eq_error.mpr ⟨rest, h⟩]
    exact ofTokens_eq_error.mpr ⟨rest ++ q, program_error_append h he q⟩

/-- Let tokens without a mark be given. What comes after a mark at their end does not matter, and
without the mark the tokens form the same program. If they form none, the error without the mark is
the one with it unless the mark was taken: then, and only then, the list has run out. -/
theorem ofTokens_end_mark {p : List Token} {mark : Token} (hp : ∀ t ∈ p, t.kind ≠ .endOfFile)
    (hmark : mark.kind = .endOfFile) (q : List Token) :
    Program.ofTokens (p ++ [mark] ++ q) = Program.ofTokens (p ++ [mark]) ∧
      (∀ P, Program.ofTokens p = .ok P ↔ Program.ofTokens (p ++ [mark]) = .ok P) ∧
      ∀ e rest, program (p ++ [mark]) = .error e rest →
        ∃ taken, p ++ [mark] = taken ++ rest ∧
          (mark ∉ taken → Program.ofTokens p = .error e) ∧
          (Program.ofTokens p = .error ⟨.unexpected .moreInput .endOfFile, ⟨0, 0⟩⟩ ↔
            mark ∈ taken) := by
  refine ⟨ofTokens_append_mark hp hmark q, ofTokens_eq_ok_iff_mark hp hmark, fun e rest h => ?_⟩
  have he := ne_endOfInput_of_mark ⟨mark, by simp, hmark⟩ h
  obtain ⟨taken, heq, hbreak⟩ := program_eq_error.mp ⟨h, he⟩
  refine ⟨taken, heq, ?_⟩
  rcases List.eq_nil_or_concat' rest with rfl | ⟨before, last, rfl⟩
  · -- the mark was taken, so the failure without it is not one that the tokens before it decide
    have htaken : mark ∈ taken := by
      rw [List.append_nil] at heq
      rw [← heq]
      simp
    have hout : Program.ofTokens p = .error .endOfInput := by
      cases hwithout : program p with
      | ok P rest =>
        have hP := (ofTokens_eq_ok_iff_mark hp hmark P).mp (ofTokens_eq_ok.mpr ⟨rest, hwithout⟩)
        rw [ofTokens_eq_error.mpr ⟨_, h⟩] at hP
        cases hP
      | error e' rest =>
        by_cases he' : e' = .endOfInput
        · rw [he'] at hwithout
          exact ofTokens_eq_error.mpr ⟨rest, hwithout⟩
        · have hboth := program_error_append hwithout he' [mark]
          rw [h] at hboth
          simp at hboth
    exact ⟨fun hnot => absurd htaken hnot, fun _ => htaken, fun _ => hout⟩
  · -- the mark was left, so the failure is decided by tokens before it
    rw [← List.append_assoc] at heq
    obtain ⟨rfl, -⟩ := List.append_inj' heq rfl
    have hsame : Program.ofTokens (taken ++ before) = .error e :=
      ofTokens_eq_error.mpr ⟨before, (program_eq_error.mpr ⟨taken, rfl, hbreak⟩).1⟩
    refine ⟨fun _ => hsame, fun hout => ?_, fun htaken => ?_⟩
    · rw [hsame] at hout
      exact absurd (Except.error.inj hout) he
    · exact absurd hmark (hp mark (List.mem_append_left before htaken))

/-- The tokens of `while x {`, a loop whose body is not closed. -/
def openLoop : List Token :=
  [⟨.keyword .whileKw, ⟨1, 1⟩, ⟨0, 5⟩⟩, ⟨.identifier "x", ⟨1, 7⟩, ⟨6, 7⟩⟩,
    ⟨.symbol .leftBrace, ⟨1, 9⟩, ⟨8, 9⟩⟩]

/-- The mark right after these tokens. -/
def markAfterLoop : Token :=
  ⟨.endOfFile, ⟨1, 10⟩, ⟨9, 9⟩⟩

/-- A brace after the mark does not close the loop; the mark is taken in place of a brace, and
without it the list runs out. -/
theorem openLoop_end_mark :
    Program.ofTokens (openLoop ++ [markAfterLoop] ++ [⟨.symbol .rightBrace, ⟨1, 10⟩, ⟨9, 10⟩⟩]) =
        .error (.unexpected (.symbol .rightBrace) markAfterLoop) ∧
      Program.ofTokens openLoop = .error ⟨.unexpected .moreInput .endOfFile, ⟨0, 0⟩⟩ := by
  have hmarks : ∀ t ∈ openLoop, t.kind ≠ .endOfFile := by
    simp [openLoop]
  have herror : program (openLoop ++ [markAfterLoop]) =
      .error (.unexpected (.symbol .rightBrace) markAfterLoop) [] := rfl
  have hmark : markAfterLoop.kind = .endOfFile := rfl
  obtain ⟨hafter, -, hfail⟩ := ofTokens_end_mark hmarks hmark
    [⟨.symbol .rightBrace, ⟨1, 10⟩, ⟨9, 10⟩⟩]
  obtain ⟨taken, heq, -, hout⟩ := hfail _ _ herror
  refine ⟨hafter.trans (ofTokens_eq_error.mpr ⟨[], herror⟩), hout.mpr ?_⟩
  rw [List.append_nil] at heq
  rw [← heq]
  simp

end Parser

end Scriptlet
