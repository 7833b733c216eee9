import Scriptlet.Proofs.Token.Tiling

/-! # Scanning by the longest match

A lexer that is generated from patterns is not written out here. What is assumed of it is one
property, `LeftmostLongest`: where a text is not at its end, the lexer takes the longest match of a
pattern that starts there, and reports a fault only where no pattern matches. `front` does the same
piece by piece, and `front_of_longest` is what connects the two: every scanner whose matcher has the
property gives the answers of `scan` (`LeftmostLongest.scan_eq`), so all that is proved about `scan`
holds of it. `longestMatch` is a matcher that has the property.

The two do not take the same steps. A pattern matches a whole run of blanks, which `front` takes one
by one; and of a block comment a pattern matches the first character only, since levels cannot be
counted by a pattern.
-/

namespace Scriptlet.Token

/-- What a pattern stands for. A word is matched as a keyword if all of it is one, because that
pattern comes before the one of names. -/
inductive Pattern where
  | lexeme (kind : Token.Kind)
  | blanks
  | lineBreak
  | lineComment
  | commentSign

/-- The texts that a pattern matches. -/
inductive Pattern.Matches : Pattern → List Char → Prop
  | lexeme {w : List Char} {kind : Token.Kind} : Lexeme w kind → Matches (.lexeme kind) w
  | blanks {w : List Char} : w ≠ [] → (∀ c ∈ w, isLineBlank c = true) → Matches .blanks w
  | lineBreak : Matches .lineBreak ['\n']
  | lineComment {w : List Char} : '\n' ∉ w → Matches .lineComment ('@' :: w)
  | commentSign : Matches .commentSign ['#']

/-- What is matched at the front of the text `c :: cs`: a pattern, and how many characters the match
takes beyond the first one. -/
abbrev Matcher :=
  Char → List Char → Option (Pattern × Nat)

/-- The matcher takes the longest match of a pattern, and finds one wherever there is one. -/
structure LeftmostLongest (matcher : Matcher) : Prop where
  matched {c : Char} {cs : List Char} {p : Pattern} {more : Nat} :
    matcher c cs = some (p, more) → ∃ w rest, cs = w ++ rest ∧ w.length = more ∧
      p.Matches (c :: w) ∧
      ∀ p' w', Pattern.Matches p' (c :: w') → w' <+: w ++ rest → w'.length ≤ w.length
  unmatched {c : Char} {cs : List Char} :
    matcher c cs = none → ∀ p w, Pattern.Matches p (c :: w) → ¬ w <+: cs

/-- What a match comes to at the front of the text `c :: cs`. The levels of a block comment are
counted in what follows its first character. -/
def Matcher.front (matcher : Matcher) (c : Char) (cs : List Char) : Front :=
  match matcher c cs with
  | some (.lexeme kind, more) => .lexeme kind more
  | some (.commentSign, _) => commentFront cs
  | some (_, more) => .trivia more
  | none => .fault (.illegalCharacter c)

/-- `scanFrom`, with what the matcher finds at the front of each rest of the text. -/
def Matcher.scanFrom (matcher : Matcher) (k : Cursor) (cs : List Char) (before : List Token) :
    Except ScanError (List Token) :=
  match cs with
  | [] => .ok (before.reverse ++ [⟨.endOfFile, k.position, ⟨k.offset, k.offset⟩⟩])
  | c :: cs =>
    match matcher.front c cs with
    | .trivia more => matcher.scanFrom (k.advance (c :: cs.take more)) (cs.drop more) before
    | .lexeme kind more =>
      let next := k.advance (c :: cs.take more)
      matcher.scanFrom next (cs.drop more) (⟨kind, k.position, ⟨k.offset, next.offset⟩⟩ :: before)
    | .fault f => .error ⟨f, k.position⟩
termination_by cs.length
decreasing_by all_goals (simp only [List.length_drop, List.length_cons]; omega)

/-- The tokens of a text, by the matches of a matcher. -/
def Matcher.scan (matcher : Matcher) (source : String) : Except ScanError (List Token) :=
  matcher.scanFrom .start source.toList []

/-! ## Every lexer of this kind gives the same tokens -/

/-- A run of blanks is a gap. -/
theorem trivia_of_blanks {w : List Char} (h : ∀ c ∈ w, isLineBlank c = true) (rest : List Char) :
    Trivia w rest := by
  induction w with
  | nil => exact .none
  | cons c w ih =>
    exact .cons (.blank (h c List.mem_cons_self)) (ih fun d hd => h d (List.mem_cons_of_mem c hd))

/-- Every character that starts trivia is matched by a pattern. -/
theorem exists_matches_of_startsTrivia {c : Char} (h : startsTrivia c = true) :
    ∃ p, Pattern.Matches p [c] := by
  rcases startsTrivia_iff.mp h with rfl | rfl | rfl | rfl | rfl | rfl | rfl
  case inr.inr.inr.inr.inl => exact ⟨_, .lineBreak⟩
  case inr.inr.inr.inr.inr.inl => exact ⟨_, .lineComment (by simp)⟩
  case inr.inr.inr.inr.inr.inr => exact ⟨_, .commentSign⟩
  all_goals exact ⟨.blanks, .blanks (by simp) (by simp [isLineBlank])⟩

namespace LeftmostLongest

variable {matcher : Matcher} (hm : LeftmostLongest matcher)

include hm

/-- Where nothing is matched, the character is illegal. -/
theorem front_of_unmatched {c : Char} {cs : List Char} (h : matcher c cs = none) :
    front c cs = .fault (.illegalCharacter c) := by
  have htrivia : startsTrivia c = false := by
    rw [Bool.eq_false_iff]
    intro hc
    obtain ⟨p, hp⟩ := exists_matches_of_startsTrivia hc
    exact hm.unmatched h p [] hp List.nil_prefix
  rcases front_of_not_trivia htrivia cs with ⟨kind, more, hfront⟩ | ⟨hfront, -⟩
  · obtain ⟨w, rest, rfl, -, hw⟩ := front_lexeme hfront
    exact absurd (List.prefix_append w rest) (hm.unmatched h _ w (.lexeme hw.1))
  · exact hfront

/-- A lexeme that is matched is the one that `front` takes. -/
theorem front_of_lexeme_matched {c : Char} {cs : List Char} {kind : Token.Kind} {more : Nat}
    (h : matcher c cs = some (.lexeme kind, more)) : front c cs = .lexeme kind more := by
  obtain ⟨w, rest, rfl, rfl, hmatch, hlongest⟩ := hm.matched h
  cases hmatch with
  | lexeme hw =>
    refine front_of_longest (longest_of_le hw fun v r kind' hv hvr => ?_)
    exact hlongest _ v (.lexeme hv) ⟨r, hvr⟩

/-- Trivia that is matched can be taken piece by piece. -/
theorem trivia_of_matched {c : Char} {cs : List Char} {p : Pattern} {more : Nat}
    (h : matcher c cs = some (p, more)) (hp : p = .blanks ∨ p = .lineBreak ∨ p = .lineComment) :
    ∃ w rest, cs = w ++ rest ∧ w.length = more ∧ Trivia (c :: w) rest := by
  obtain ⟨w, rest, rfl, rfl, hmatch, hlongest⟩ := hm.matched h
  refine ⟨w, rest, rfl, rfl, ?_⟩
  rcases hp with rfl | rfl | rfl
  · cases hmatch with
    | blanks _ hblank => exact trivia_of_blanks hblank rest
  · cases hmatch
    exact .cons .lineBreak .none
  · cases hmatch with
    | lineComment hw =>
      have hpiece : TriviaPiece ('@' :: w) ([] ++ rest) := by
        refine .lineComment hw fun d hd => ?_
        -- the comment would go on with any other character
        by_contra hne
        obtain ⟨rest, rfl⟩ := List.head?_eq_some_iff.mp hd
        have hlonger : Pattern.Matches .lineComment ('@' :: (w ++ [d])) := by
          refine .lineComment fun hmem => ?_
          rcases List.mem_append.mp hmem with hmem | hmem
          · exact hw hmem
          · exact hne (List.mem_singleton.mp hmem).symm
        have hle := hlongest _ _ hlonger ⟨rest, by simp⟩
        rw [List.length_append, List.length_singleton] at hle
        omega
      have htrivia := Trivia.cons hpiece .none
      rwa [List.append_nil] at htrivia

/-- The matcher finds what `front` finds, or trivia that can be taken piece by piece. -/
theorem front_cases (c : Char) (cs : List Char) :
    matcher.front c cs = front c cs ∨
      ∃ w rest, cs = w ++ rest ∧ matcher.front c cs = .trivia w.length ∧ Trivia (c :: w) rest := by
  cases hmatch : matcher c cs with
  | none => exact Or.inl (by rw [Matcher.front, hmatch, hm.front_of_unmatched hmatch])
  | some found =>
    obtain ⟨p, more⟩ := found
    have htrivia (hp : p = .blanks ∨ p = .lineBreak ∨ p = .lineComment)
        (hfront : matcher.front c cs = .trivia more) :
        ∃ w rest, cs = w ++ rest ∧ matcher.front c cs = .trivia w.length ∧
          Trivia (c :: w) rest := by
      obtain ⟨w, rest, hcs, rfl, hw⟩ := hm.trivia_of_matched hmatch hp
      exact ⟨w, rest, hcs, hfront, hw⟩
    cases p with
    | lexeme kind =>
      exact Or.inl (by rw [Matcher.front, hmatch, hm.front_of_lexeme_matched hmatch])
    | commentSign =>
      obtain ⟨w, rest, rfl, -, hsign, -⟩ := hm.matched hmatch
      cases hsign
      exact Or.inl (by rw [Matcher.front, hmatch]; rfl)
    | blanks => exact Or.inr (htrivia (by simp) (by rw [Matcher.front, hmatch]))
    | lineBreak => exact Or.inr (htrivia (by simp) (by rw [Matcher.front, hmatch]))
    | lineComment => exact Or.inr (htrivia (by simp) (by rw [Matcher.front, hmatch]))

/-- From any place on, the scan by the matcher is the scan. -/
theorem scanFrom_eq (before text : List Char) (acc : List Token) :
    matcher.scanFrom (Cursor.start.advance before) text acc =
      scanFrom (Cursor.start.advance before) text acc := by
  -- the rest after a match is shorter, but no tail of the match
  induction hn : text.length using Nat.strong_induction_on generalizing before text acc with
  | _ n ih =>
    subst hn
    cases text with
    | nil => rw [Matcher.scanFrom, scanFrom]
    | cons c cs =>
      have hshort (more : Nat) : (cs.drop more).length < (c :: cs).length := by
        simp only [List.length_drop, List.length_cons]
        omega
      rcases hm.front_cases c cs with hfront | ⟨w, rest, rfl, hfront, hw⟩
      · rw [Matcher.scanFrom, scanFrom, hfront]
        cases front c cs with
        | trivia more =>
          simp only [← Cursor.advance_append]
          exact ih _ (hshort more) _ _ _ rfl
        | lexeme kind more =>
          simp only [← Cursor.advance_append]
          exact ih _ (hshort more) _ _ _ rfl
        | fault f => rfl
      · have hdrop := hshort w.length
        rw [List.drop_left] at hdrop
        calc matcher.scanFrom (Cursor.start.advance before) (c :: (w ++ rest)) acc
            = matcher.scanFrom (Cursor.start.advance (before ++ c :: w)) rest acc := by
              rw [Matcher.scanFrom, hfront]
              simp only [List.take_left, List.drop_left, Cursor.advance_append]
          _ = scanFrom (Cursor.start.advance (before ++ c :: w)) rest acc := ih _ hdrop _ _ _ rfl
          _ = scanFrom (Cursor.start.advance before) (c :: (w ++ rest)) acc :=
              (scanFrom_gap hw before acc).symm

/-- A scanner that takes the longest matches of the patterns gives the answers of `scan`. -/
theorem scan_eq (source : String) : matcher.scan source = scan source :=
  hm.scanFrom_eq [] source.toList []

end LeftmostLongest

/-! ## A lexer of this kind -/

/-- The longest match at the front of the text `c :: cs`. -/
def longestMatch (c : Char) (cs : List Char) : Option (Pattern × Nat) :=
  if isLineBlank c then some (.blanks, (cs.takeWhile isLineBlank).length)
  else if c == '\n' then some (.lineBreak, 0)
  else if c == '@' then some (.lineComment, (cs.takeWhile (· != '\n')).length)
  else if c == '#' then some (.commentSign, 0)
  else
    match front c cs with
    | .lexeme kind more => some (.lexeme kind, more)
    | _ => none

/-- The first character of a match tells what can follow it. -/
theorem Pattern.Matches.tail {p : Pattern} {c : Char} {w : List Char} (h : p.Matches (c :: w)) :
    (startsTrivia c = false → ∃ kind, Lexeme (c :: w) kind) ∧
      (isLineBlank c = true → ∀ d ∈ w, isLineBlank d = true) ∧
      (c = '@' → ∀ d ∈ w, (d != '\n') = true) ∧
      (c = '\n' ∨ c = '#' → w = []) := by
  cases h with
  | lexeme hw =>
    have hc := hw.head_not_trivia
    refine ⟨fun _ => ⟨_, hw⟩, fun hblank => ?_, ?_, ?_⟩
    · rw [startsTrivia, hblank] at hc
      cases hc
    · rintro rfl
      cases hc
    · rintro (rfl | rfl) <;> cases hc
  | blanks _ hblank =>
    rw [List.forall_mem_cons] at hblank
    refine ⟨fun hc => ?_, fun _ => hblank.2, ?_, ?_⟩
    · rw [startsTrivia, hblank.1] at hc
      cases hc
    · rintro rfl
      cases hblank.1
    · rintro (rfl | rfl) <;> cases hblank.1
  | lineComment hw =>
    refine ⟨fun hc => absurd hc (by decide), fun hc => absurd hc (by decide), fun _ d hd => ?_,
      fun hc => absurd hc (by decide)⟩
    rw [bne_iff_ne]
    rintro rfl
    exact hw hd
  | lineBreak | commentSign =>
    exact ⟨fun hc => absurd hc (by decide), fun hc => absurd hc (by decide),
      fun hc => absurd hc (by decide), fun _ => rfl⟩

/-- What is matched at a character that starts trivia. -/
theorem longestMatch_of_startsTrivia {c : Char} (h : startsTrivia c = true) (cs : List Char) :
    isLineBlank c = true ∧ longestMatch c cs = some (.blanks, (cs.takeWhile isLineBlank).length) ∨
      c = '\n' ∧ longestMatch c cs = some (.lineBreak, 0) ∨
      c = '@' ∧ longestMatch c cs = some (.lineComment, (cs.takeWhile (· != '\n')).length) ∨
      c = '#' ∧ longestMatch c cs = some (.commentSign, 0) := by
  rcases startsTrivia_iff.mp h with rfl | rfl | rfl | rfl | rfl | rfl | rfl
  case inr.inr.inr.inr.inl => exact Or.inr (Or.inl ⟨rfl, rfl⟩)
  case inr.inr.inr.inr.inr.inl => exact Or.inr (Or.inr (Or.inl ⟨rfl, rfl⟩))
  case inr.inr.inr.inr.inr.inr => exact Or.inr (Or.inr (Or.inr ⟨rfl, rfl⟩))
  all_goals exact Or.inl ⟨rfl, rfl⟩

/-- Elsewhere, a match is what `front` takes as a lexeme. -/
theorem longestMatch_eq_some_iff {c : Char} (h : startsTrivia c = false) {cs : List Char}
    {p : Pattern} {more : Nat} :
    longestMatch c cs = some (p, more) ↔
      ∃ kind, p = .lexeme kind ∧ front c cs = .lexeme kind more := by
  simp only [startsTrivia, Bool.or_eq_false_iff] at h
  obtain ⟨⟨⟨hblank, hbreak⟩, hline⟩, hblock⟩ := h
  simp only [longestMatch, hblank, hbreak, hline, hblock, Bool.false_eq_true, if_false]
  cases front c cs <;> simp [eq_comm]

/-- There is a lexer that takes the longest matches. -/
theorem leftmostLongest_longestMatch : LeftmostLongest longestMatch where
  matched {c cs p more} h := by
    cases htrivia : startsTrivia c with
    | true =>
      rcases longestMatch_of_startsTrivia htrivia cs with
        ⟨hblank, hfound⟩ | ⟨rfl, hfound⟩ | ⟨rfl, hfound⟩ | ⟨rfl, hfound⟩ <;>
        cases h.symm.trans hfound
      · refine ⟨_, _, List.takeWhile_append_dropWhile.symm, rfl, .blanks (by simp) ?_, ?_⟩
        · rw [List.forall_mem_cons]
          exact ⟨hblank, fun d hd => List.mem_takeWhile_imp hd⟩
        · intro p' w' hmatch hw'
          rw [List.takeWhile_append_dropWhile] at hw'
          exact length_le_takeWhile (hmatch.tail.2.1 hblank) hw'
      · refine ⟨[], cs, rfl, rfl, .lineBreak, fun p' w' hmatch _ => ?_⟩
        rw [hmatch.tail.2.2.2 (Or.inl rfl)]
      · refine ⟨_, _, List.takeWhile_append_dropWhile.symm, rfl, .lineComment ?_, ?_⟩
        · intro hmem
          simpa using List.mem_takeWhile_imp hmem
        · intro p' w' hmatch hw'
          rw [List.takeWhile_append_dropWhile] at hw'
          exact length_le_takeWhile (hmatch.tail.2.2.1 rfl) hw'
      · refine ⟨[], cs, rfl, rfl, .commentSign, fun p' w' hmatch _ => ?_⟩
        rw [hmatch.tail.2.2.2 (Or.inr rfl)]
    | false =>
      obtain ⟨kind, rfl, hfront⟩ := (longestMatch_eq_some_iff htrivia).mp h
      obtain ⟨w, rest, rfl, rfl, hw⟩ := front_lexeme hfront
      refine ⟨w, rest, rfl, rfl, .lexeme hw.1, fun p' w' hmatch hw' => ?_⟩
      obtain ⟨kind', hlexeme⟩ := hmatch.tail.1 htrivia
      have hle := hw.2 _ kind' hlexeme (List.cons_prefix_cons.mpr ⟨rfl, hw'⟩)
      exact Nat.le_of_succ_le_succ hle
  unmatched {c cs} h p w hmatch hprefix := by
    cases htrivia : startsTrivia c with
    | true =>
      rcases longestMatch_of_startsTrivia htrivia cs with
        ⟨-, hfound⟩ | ⟨-, hfound⟩ | ⟨-, hfound⟩ | ⟨-, hfound⟩ <;> cases h.symm.trans hfound
    | false =>
      obtain ⟨kind, hlexeme⟩ := hmatch.tail.1 htrivia
      obtain ⟨rest, rfl⟩ := hprefix
      obtain ⟨kind', more, hfront⟩ := hlexeme.front_eq rest
      cases h.symm.trans ((longestMatch_eq_some_iff htrivia).mpr ⟨kind', rfl, hfront⟩)

end Scriptlet.Token
