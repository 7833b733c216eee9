import Scriptlet.Proofs.Token.Tiling

/-! # Texts laid out from lexemes

A text may be laid out from lexemes by putting trivia between them (`Layout`). No lexeme holds a
character that trivia starts with, so each of them stays the longest one where it stands, and the
lexemes tile the text. A tiling is what scanning finds, so scanning gives the lexemes back
(`scan_layout`).
-/

namespace Scriptlet.Token

/-- What follows a lexeme in a text: other lexemes, with trivia before each of them, and trivia at
the end, of which there may be none. -/
inductive Spaced : List (List Char × Token.Kind) → List Char → Prop
  | last {gap : List Char} : Trivia gap [] → Spaced [] gap
  | next {gap w text : List Char} {kind : Token.Kind} {lexemes : List (List Char × Token.Kind)} :
      gap ≠ [] → Trivia gap (w ++ text) → Lexeme w kind → Spaced lexemes text →
      Spaced ((w, kind) :: lexemes) (gap ++ w ++ text)

/-- A text of the given lexemes in their order, with trivia between any two of them, and with trivia
or nothing before the first and after the last. -/
inductive Layout : List (List Char × Token.Kind) → List Char → Prop
  | empty {gap : List Char} : Trivia gap [] → Layout [] gap
  | first {gap w text : List Char} {kind : Token.Kind} {lexemes : List (List Char × Token.Kind)} :
      Trivia gap (w ++ text) → Lexeme w kind → Spaced lexemes text →
      Layout ((w, kind) :: lexemes) (gap ++ w ++ text)

theorem Spaced.head {lexemes : List (List Char × Token.Kind)} {text : List Char}
    (h : Spaced lexemes text) : ∀ c ∈ text.head?, startsTrivia c = true := by
  cases h with
  | last hgap => exact hgap.head
  | next hne hgap _ _ =>
    obtain ⟨c, gap, rfl⟩ := List.exists_cons_of_ne_nil hne
    exact hgap.head

section

variable {source : String} {lexemes : List (List Char × Token.Kind)}

/-- The tokens of a text, each read as its text and its kind. -/
def spelled (source : String) (ts : List Token) : List (List Char × Token.Kind) :=
  ts.map fun t => ((t.lexeme source).toList, t.kind)

/-- A gap and a lexeme before spaced lexemes are a tile before their tiles. -/
theorem Spaced.tiles_cons {before gap w text : List Char} {kind : Token.Kind}
    (hspaced : Spaced lexemes text) (hgap : Trivia gap (w ++ text)) (hw : Lexeme w kind)
    (hsource : source.toList = before ++ (gap ++ w ++ text))
    (htiles : ∃ ts, Tiles (before ++ gap ++ w) text ts [] ∧ spelled source ts = lexemes) :
    ∃ ts, Tiles before (gap ++ w ++ text) ts [] ∧ spelled source ts = (w, kind) :: lexemes := by
  obtain ⟨ts, htiles, hspelled⟩ := htiles
  have hplace : source.toList = before ++ gap ++ w ++ text := by
    rw [hsource]
    simp only [List.append_assoc]
  refine ⟨placed kind (before ++ gap) w :: ts, .token ?_ ?_ htiles, ?_⟩
  · rwa [List.append_nil]
  · rw [List.append_nil]
    exact hw.longest hspaced.head
  · rw [← hspelled, spelled, List.map_cons, lexeme_placed kind hplace, String.toList_ofList]
    rfl

/-- Spaced lexemes tile the text that they make. -/
theorem Spaced.tiles {text : List Char} (h : Spaced lexemes text) {before : List Char}
    (hsource : source.toList = before ++ text) :
    ∃ ts, Tiles before text ts [] ∧ spelled source ts = lexemes := by
  induction h generalizing before with
  | last hgap => exact ⟨[], .gap hgap, rfl⟩
  | next _ hgap hw hspaced ih =>
    refine hspaced.tiles_cons hgap hw hsource (ih ?_)
    rw [hsource]
    simp only [List.append_assoc]

/-- However lexemes are laid out with trivia between them, scanning the text gives one token for each
of them, in their order, with the lexeme as its text, and then the token for the end. -/
theorem scan_layout (h : Layout lexemes source.toList) :
    ∃ ts, scan source = .ok (ts ++ [atEnd source.toList]) ∧ spelled source ts = lexemes := by
  obtain ⟨ts, htiles, hspelled⟩ :
      ∃ ts, Tiles [] source.toList ts [] ∧ spelled source ts = lexemes := by
    generalize htext : source.toList = text at h
    cases h with
    | empty hgap => exact ⟨[], .gap hgap, rfl⟩
    | first hgap hw hspaced => exact hspaced.tiles_cons hgap hw htext (hspaced.tiles htext)
  exact ⟨ts, htiles.scanFrom_eq [], hspelled⟩

end

/-- A keyword after a line comment, and a number between nested block comments and another line
comment, which ends with the text. -/
def crowdedText : String := "@ ∂\nfor#|é#|\n|#|#1.5 @"

/-- The lexemes of that text. -/
def crowdedLexemes : List (List Char × Token.Kind) :=
  [("for".toList, .keyword .forKw), ("1.5".toList, .number (Number.ofDecimal 15 1))]

theorem crowdedText_scanned :
    Layout crowdedLexemes crowdedText.toList ∧
      ∃ ts, scan crowdedText = .ok (ts ++ [atEnd crowdedText.toList]) ∧
        spelled crowdedText ts = crowdedLexemes := by
  have hnumber : Numeral ['1', '.', '5'] (Number.ofDecimal 15 1) :=
    @Numeral.fraction ['1'] ['5'] (digits_cons rfl (by simp)) (digits_cons rfl (by simp))
  have hbody : CommentBody ['é', '#', '|', '\n', '|', '#', '|', '#'] :=
    .char (by decide) (by decide)
      (@CommentBody.nested ['\n', '|', '#'] _ (.char (by decide) (by decide) .close) .close)
  have hstart (rest : List Char) : Trivia ['@', ' ', '∂', '\n'] rest :=
    @Trivia.cons ['@', ' ', '∂'] _ _ (.lineComment (by decide) (by simp)) (.cons .lineBreak .none)
  have hcomment (rest : List Char) :
      Trivia ['#', '|', 'é', '#', '|', '\n', '|', '#', '|', '#'] rest :=
    @Trivia.cons ['#', '|', 'é', '#', '|', '\n', '|', '#', '|', '#'] [] _ (.blockComment hbody) .none
  have hend : Trivia [' ', '@'] [] :=
    .cons (.blank rfl) (@Trivia.cons ['@'] [] _ (.lineComment (by simp) (by simp)) .none)
  have hlayout : Layout crowdedLexemes crowdedText.toList :=
    .first (hstart _) (.keyword .forKw)
      (.next (by simp) (hcomment _) (.number hnumber) (.last hend))
  exact ⟨hlayout, scan_layout hlayout⟩

end Scriptlet.Token
