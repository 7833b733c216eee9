import Scriptlet.Proofs.Token.Tiling

/-! # Scanning texts that are joined by a line break

No lexeme and no piece of trivia goes on past a line break that is put after the text, except for a
block comment that the text leaves open (`front_lineBreak`). So the tokens of two texts with a line
break between them are those of the first text and then those of the second, which stand lower by
the lines of the first (`scan_join`). A fault in the first text stays where it is, unless it is such
an open comment.
-/

namespace Scriptlet

/-- The position a number of lines further down. -/
def Position.lower (lines : Nat) (p : Position) : Position :=
  { p with line := p.line + lines }

namespace Text

/-- What stands after a line break is not joined to the line before. -/
theorem lastLine_lineBreak (cs ds : List Char) : lastLine (cs ++ '\n' :: ds) = lastLine ds := by
  induction ds using List.reverseRecOn with
  | nil => rw [lastLine_concat, if_pos rfl, lastLine_nil]
  | append_singleton ds d ih =>
    have hsplit : cs ++ '\n' :: (ds ++ [d]) = (cs ++ '\n' :: ds) ++ [d] := by simp
    rw [hsplit, lastLine_concat, lastLine_concat, ih]

/-- The number of lines that a text and the line break after it take. -/
def lineCount (cs : List Char) : Nat :=
  cs.count '\n' + 1

end Text

theorem Position.after_lineBreak (cs ds : List Char) :
    Position.after (cs ++ '\n' :: ds) = (Position.after ds).lower (Text.lineCount cs) := by
  simp only [Position.after, Position.lower, Text.lastLine_lineBreak, Text.lineCount,
    List.count_append, List.count_cons_self, Position.mk.injEq, and_true]
  omega

namespace Token

/-! ## Fronts that a line break ends -/

theorem takeWhile_lineBreak {p : Char → Bool} (hp : p '\n' = false) (cs ds : List Char) :
    (cs ++ '\n' :: ds).takeWhile p = cs.takeWhile p := by
  induction cs with
  | nil => rw [List.nil_append, List.takeWhile_cons_of_neg (by simp [hp]), List.takeWhile_nil]
  | cons c cs ih =>
    rw [List.cons_append, List.takeWhile_cons, List.takeWhile_cons, ih]

theorem dropWhile_lineBreak {p : Char → Bool} (hp : p '\n' = false) (cs ds : List Char) :
    (cs ++ '\n' :: ds).dropWhile p = cs.dropWhile p ++ '\n' :: ds := by
  induction cs with
  | nil => rw [List.nil_append, List.dropWhile_cons_of_neg (by simp [hp]), List.dropWhile_nil,
      List.nil_append]
  | cons c cs ih =>
    rw [List.cons_append, List.dropWhile_cons, List.dropWhile_cons, ih]
    by_cases hc : p c = true
    · rw [if_pos hc, if_pos hc]
    · rw [if_neg hc, if_neg hc, List.cons_append]

theorem numberFront_lineBreak (c : Char) (cs ds : List Char) :
    numberFront c (cs ++ '\n' :: ds) = numberFront c cs := by
  simp only [numberFront, takeWhile_lineBreak (p := Char.isDigit) rfl,
    dropWhile_lineBreak (p := Char.isDigit) rfl]
  -- the digits may be followed by nothing, by a point alone, or by more
  cases cs.dropWhile Char.isDigit with
  | nil => rfl
  | cons d more =>
    by_cases hd : d = '.'
    · subst hd
      cases more with
      | nil => rfl
      | cons d' rest => simp only [List.cons_append, takeWhile_lineBreak (p := Char.isDigit) rfl]
    · simp [hd]

theorem wordFront_lineBreak (c : Char) (cs ds : List Char) :
    wordFront c (cs ++ '\n' :: ds) = wordFront c cs := by
  rw [wordFront, wordFront, takeWhile_lineBreak rfl]

theorem symbolFront_lineBreak (c : Char) (cs ds : List Char) :
    symbolFront c (cs ++ '\n' :: ds) = symbolFront c cs := by
  cases cs with
  | cons d cs => rfl
  | nil =>
    have hpair : pairSymbol? c '\n' = none := by
      unfold pairSymbol?
      split <;> first | rfl | contradiction
    rw [symbolFront, symbolFront]
    simp only [List.nil_append, List.head?_cons, List.head?_nil, Option.bind_some, hpair,
      Option.bind_none]

/-- A comment that is closed stays as it is, and so does one that is not opened. -/
theorem commentFront_lineBreak {cs : List Char}
    (h : commentFront cs ≠ .fault .unterminatedBlockComment) (ds : List Char) :
    commentFront (cs ++ '\n' :: ds) = commentFront cs := by
  match cs with
  | [] => rfl
  | c :: cs =>
    by_cases hc : c = '|'
    · subst hc
      rw [List.cons_append, commentFront, commentFront]
      cases hlength : commentLength? cs 0 1 with
      | none =>
        rw [commentFront, hlength] at h
        exact absurd rfl h
      | some more =>
        obtain ⟨body, rest, rfl, hbody, hend⟩ := exists_body hlength
        rw [List.append_assoc, commentLength?_append hbody]
        cases hend
        rfl
    · simp [commentFront, hc]

/-- A line break after the text ends what stands at its front, unless that is an open comment. -/
theorem front_lineBreak {c : Char} {cs : List Char}
    (h : front c cs ≠ .fault .unterminatedBlockComment) (ds : List Char) :
    front c (cs ++ '\n' :: ds) = front c cs := by
  unfold front at h ⊢
  rw [takeWhile_lineBreak rfl, numberFront_lineBreak, wordFront_lineBreak, symbolFront_lineBreak]
  by_cases hblank : (isLineBlank c || c == '\n') = true
  · rw [if_pos hblank, if_pos hblank]
  · by_cases hline : (c == '@') = true
    · rw [if_neg hblank, if_neg hblank, if_pos hline, if_pos hline]
    · by_cases hblock : (c == '#') = true
      · rw [if_neg hblank, if_neg hline, if_pos hblock] at h
        rw [if_neg hblank, if_neg hblank, if_neg hline, if_neg hline, if_pos hblock, if_pos hblock,
          commentFront_lineBreak h]
      · rw [if_neg hblank, if_neg hblank, if_neg hline, if_neg hline, if_neg hblock, if_neg hblock]

/-! ## The text before the line break -/

/-- Scanning a text whose scan succeeds goes on behind a line break after it. A scan that fails does so
without reading that far, unless a comment is open. -/
theorem scanFrom_lineBreak (before text : List Char) (acc : List Token) :
    (∃ e, scanFrom (Cursor.start.advance before) text acc = .error e ∧
        (e.fault ≠ .unterminatedBlockComment → ∀ ds,
          scanFrom (Cursor.start.advance before) (text ++ '\n' :: ds) acc = .error e)) ∨
      ∃ acc', scanFrom (Cursor.start.advance before) text acc =
          .ok (acc'.reverse ++ [atEnd (before ++ text)]) ∧
        ∀ ds, scanFrom (Cursor.start.advance before) (text ++ '\n' :: ds) acc =
          scanFrom (Cursor.start.advance (before ++ text ++ ['\n'])) ds acc' := by
  induction text using front_induction generalizing before acc with
  | nil =>
    refine Or.inr ⟨acc, ?_, fun ds => ?_⟩
    · rw [scanFrom_nil, List.append_nil]
    · rw [List.append_nil]
      exact scanFrom_trivia (w := []) rfl acc
  | trivia c w rest hfront _ ih =>
    have hjoined (ds : List Char) : front c (w ++ (rest ++ '\n' :: ds)) = .trivia w.length := by
      rw [← List.append_assoc, front_lineBreak (by rw [hfront]; exact nofun), hfront]
    rw [scanFrom_trivia hfront]
    rcases ih (before ++ c :: w) acc with ⟨e, he, hjoin⟩ | ⟨acc', hscan, hjoin⟩
    · refine Or.inl ⟨e, he, fun hclosed ds => ?_⟩
      rw [List.cons_append, List.append_assoc, scanFrom_trivia (hjoined ds), hjoin hclosed]
    refine Or.inr ⟨acc', ?_, fun ds => ?_⟩
    · rw [hscan, List.append_assoc before, List.cons_append]
    · have hrest := hjoin ds
      rw [List.append_assoc before, List.cons_append] at hrest
      rw [List.cons_append, List.append_assoc, scanFrom_trivia (hjoined ds), hrest]
  | lexeme c w rest kind hfront _ ih =>
    have hjoined (ds : List Char) :
        front c (w ++ (rest ++ '\n' :: ds)) = .lexeme kind w.length := by
      rw [← List.append_assoc, front_lineBreak (by rw [hfront]; exact nofun), hfront]
    rw [scanFrom_lexeme hfront]
    rcases ih (before ++ c :: w) _ with ⟨e, he, hjoin⟩ | ⟨acc', hscan, hjoin⟩
    · refine Or.inl ⟨e, he, fun hclosed ds => ?_⟩
      rw [List.cons_append, List.append_assoc, scanFrom_lexeme (hjoined ds), hjoin hclosed]
    refine Or.inr ⟨acc', ?_, fun ds => ?_⟩
    · rw [hscan, List.append_assoc before, List.cons_append]
    · have hrest := hjoin ds
      rw [List.append_assoc before, List.cons_append] at hrest
      rw [List.cons_append, List.append_assoc, scanFrom_lexeme (hjoined ds), hrest]
  | fault c rest f hfront _ =>
    refine Or.inl ⟨_, scanFrom_fault hfront acc, fun hclosed ds => ?_⟩
    have hne : front c rest ≠ .fault .unterminatedBlockComment := by
      rw [hfront]
      rintro ⟨⟩
      exact hclosed rfl
    rw [List.cons_append, scanFrom_fault (by rw [front_lineBreak hne, hfront])]

/-! ## The text after the line break -/

/-- The token in a text that stands after another one and a line break. -/
def below (above : List Char) (t : Token) : Token where
  kind := t.kind
  pos := t.pos.lower (Text.lineCount above)
  span := ⟨t.span.start + Text.byteLength above + 1, t.span.stop + Text.byteLength above + 1⟩

theorem placed_below (above before w : List Char) (kind : Token.Kind) :
    placed kind (above ++ '\n' :: before) w = (placed kind before w).below above := by
  have hbreak : '\n'.utf8Size = 1 := rfl
  simp only [placed, below, Position.after_lineBreak, Text.byteLength_append, Text.byteLength_cons,
    hbreak, Token.mk.injEq, Span.mk.injEq, true_and]
  omega

/-- Below another text a text has the same tokens, and the same fault. -/
theorem scanFrom_below (above before text : List Char) (acc first : List Token) :
    scanFrom (Cursor.start.advance (above ++ '\n' :: before)) text
        (acc.map (below above) ++ first) =
      match scanFrom (Cursor.start.advance before) text acc with
      | .ok ts => .ok (first.reverse ++ ts.map (below above))
      | .error e => .error { e with pos := e.pos.lower (Text.lineCount above) } := by
  induction text using front_induction generalizing before acc with
  | nil =>
    rw [scanFrom_nil, scanFrom_nil, atEnd, placed_below]
    simp [atEnd]
  | trivia c w rest hfront _ ih =>
    rw [scanFrom_trivia hfront, scanFrom_trivia hfront, List.append_assoc, List.cons_append]
    exact ih (before ++ c :: w) acc
  | lexeme c w rest kind hfront _ ih =>
    rw [scanFrom_lexeme hfront, scanFrom_lexeme hfront, placed_below, List.append_assoc]
    exact ih (before ++ c :: w) (placed kind before (c :: w) :: acc)
  | fault c rest f hfront _ =>
    rw [scanFrom_fault hfront, scanFrom_fault hfront, Position.after_lineBreak]

theorem toList_joined (source source' : String) :
    (source ++ "\n" ++ source').toList = source.toList ++ '\n' :: source'.toList := by
  simp

/-- Two texts with a line break between them have the tokens of the first, without the mark at its
end, and then those of the second, below the first. -/
theorem scan_join {source source' : String} {ts : List Token}
    (h : scan source = .ok (ts ++ [atEnd source.toList])) :
    scan (source ++ "\n" ++ source') =
      match scan source' with
      | .ok ts' => .ok (ts ++ ts'.map (below source.toList))
      | .error e => .error { e with pos := e.pos.lower (Text.lineCount source.toList) } := by
  rcases scanFrom_lineBreak [] source.toList [] with ⟨e, he, -⟩ | ⟨acc, hscan, hjoin⟩
  · cases h.symm.trans he
  · have hacc : acc.reverse = ts := by
      have heq := Except.ok.inj (hscan.symm.trans h)
      exact List.append_cancel_right heq
    have hbelow := scanFrom_below source.toList [] source'.toList [] acc
    rw [hacc] at hbelow
    rw [scan, toList_joined]
    refine Eq.trans ?_ hbelow
    exact hjoin source'.toList

/-- A text whose scan fails, but not for an open comment, fails in the same way before a line break. -/
theorem scan_join_error {source : String} {e : ScanError} (h : scan source = .error e)
    (hclosed : e.fault ≠ .unterminatedBlockComment) (source' : String) :
    scan (source ++ "\n" ++ source') = .error e := by
  rcases scanFrom_lineBreak [] source.toList [] with ⟨e', he', hjoin⟩ | ⟨acc, hscan, -⟩
  · obtain rfl : e = e' := Except.error.inj (h.symm.trans he')
    rw [scan, toList_joined]
    exact hjoin hclosed source'.toList
  · cases h.symm.trans hscan

/-- The token a number of bytes and of lines further on, in the same column. -/
def shift (bytes lines : Nat) (t : Token) : Token where
  kind := t.kind
  pos := ⟨t.pos.line + lines, t.pos.column⟩
  span := ⟨t.span.start + bytes, t.span.stop + bytes⟩

theorem below_eq_shift (source : String) :
    below source.toList = shift (source.utf8ByteSize + 1) (source.toList.count '\n' + 1) := by
  funext t
  rw [below, Text.byteLength_toList]
  rfl

/-- Scanning is compositional at line breaks. If a text can be scanned, then with a line break and
another text after it, it has its own tokens without the mark at its end, and then those of the other
text, shifted by its bytes and lines; or it has the fault of the other text, shifted by its lines. If
the first text has a fault other than an open comment, then so has the longer text. -/
theorem scan_compositional (source source' : String) :
    (∀ ts, scan source = .ok ts →
      scan (source ++ "\n" ++ source') =
        match scan source' with
        | .ok ts' => .ok (ts.dropLast ++
            ts'.map (shift (source.utf8ByteSize + 1) (source.toList.count '\n' + 1)))
        | .error e => .error
            ⟨e.fault, ⟨e.pos.line + (source.toList.count '\n' + 1), e.pos.column⟩⟩) ∧
      ∀ e, scan source = .error e →
        ((∃ c, e.fault = .illegalCharacter c) ∨ e.fault = .malformedBlockComment) →
        scan (source ++ "\n" ++ source') = .error e := by
  refine ⟨fun ts h => ?_, fun e h hfault => ?_⟩
  · obtain ⟨body, rfl, -⟩ := scan_eq_ok h
    rw [scan_join h, List.dropLast_concat, below_eq_shift]
    rfl
  · refine scan_join_error h (fun hopen => ?_) source'
    rcases hfault with ⟨c, hc⟩ | hmalformed
    · rw [hopen] at hc
      cases hc
    · rw [hopen] at hmalformed
      cases hmalformed

/-- The fault of a text, if it has one. -/
def scanFault? (source : String) : Option ScanError :=
  match scan source with
  | .ok _ => none
  | .error e => some e

theorem scanFault?_eq_some {source : String} {e : ScanError} (h : scanFault? source = some e) :
    scan source = .error e := by
  rw [scanFault?] at h
  cases hscan : scan source with
  | ok ts =>
    rw [hscan] at h
    cases h
  | error e' =>
    rw [hscan] at h
    rw [Option.some.inj h]

theorem scanFault?_eq_none {source : String} (h : scanFault? source = none) :
    ∃ ts, scan source = .ok ts := by
  rw [scanFault?] at h
  cases hscan : scan source with
  | ok ts => exact ⟨ts, rfl⟩
  | error e =>
    rw [hscan] at h
    cases h

/-- The first text ends in half of an operator, and the second starts with the other half and fails;
put first, it fails whatever comes after it. -/
theorem halfOperators_composed :
    (∃ ts, scan "x #|\n|# <" = .ok ts) ∧
      scan ("x #|\n|# <" ++ "\n" ++ "=&") = .error ⟨.illegalCharacter '&', ⟨3, 2⟩⟩ ∧
      ∀ source', scan ("=&" ++ "\n" ++ source') = .error ⟨.illegalCharacter '&', ⟨1, 2⟩⟩ := by
  obtain ⟨ts, hfirst⟩ : ∃ ts, scan "x #|\n|# <" = .ok ts := scanFault?_eq_none (by decide +kernel)
  have hsecond : scan "=&" = .error ⟨.illegalCharacter '&', ⟨1, 2⟩⟩ :=
    scanFault?_eq_some (by decide +kernel)
  refine ⟨⟨ts, hfirst⟩, ?_, fun source' => ?_⟩
  · rw [(scan_compositional "x #|\n|# <" "=&").1 ts hfirst, hsecond]
    rfl
  · exact (scan_compositional "=&" source').2 _ hsecond (Or.inl ⟨'&', rfl⟩)

end Token

end Scriptlet
