import Scriptlet.Token.Scan
import Scriptlet.Proofs.Text.Place
import Scriptlet.Proofs.Token.Trivia

/-! # Tokens tile the text

`Tiles` splits a text into gaps of trivia and longest lexemes, each with the token that stands for
it. Scanning finds such a split of the whole text, or of the text up to the character where reading
stops (`scan_cases`). What tokens and their spans have in common is then read off the split, and not
off the scanner.
-/

namespace Scriptlet.Token

/-- The token of the lexeme `w` that stands after the text `before`. -/
def placed (kind : Token.Kind) (before w : List Char) : Token where
  kind := kind
  pos := Position.after before
  span := ⟨Text.byteLength before, Text.byteLength (before ++ w)⟩

/-- The token of the end of a text. -/
def atEnd (cs : List Char) : Token :=
  placed .endOfFile cs []

/-- Between `before` and `rest`, a text consists of the lexemes of the given tokens, with nothing
but trivia before, between and after them. Each lexeme is the longest one that starts where it does.
-/
inductive Tiles : List Char → List Char → List Token → List Char → Prop
  | gap {before gap rest : List Char} : Trivia gap rest → Tiles before gap [] rest
  | token {before gap w text rest : List Char} {kind : Token.Kind} {ts : List Token} :
      Trivia gap (w ++ text ++ rest) → Longest w (text ++ rest) kind →
      Tiles (before ++ gap ++ w) text ts rest →
      Tiles before (gap ++ w ++ text) (placed kind (before ++ gap) w :: ts) rest

namespace Tiles

/-- A piece of trivia widens the first gap. -/
theorem cons_trivia {before piece text rest : List Char} {ts : List Token}
    (hpiece : TriviaPiece piece (text ++ rest)) (h : Tiles (before ++ piece) text ts rest) :
    Tiles before (piece ++ text) ts rest := by
  generalize hbefore : before ++ piece = before' at h
  cases h with
  | gap hgap => exact .gap (.cons hpiece hgap)
  | @token _ gap w text _ kind ts hgap hw htext =>
    subst hbefore
    have hwide : Trivia (piece ++ gap) (w ++ text ++ rest) := by
      refine .cons ?_ hgap
      simpa only [List.append_assoc] using hpiece
    simp only [List.append_assoc before piece] at htext
    have htiles := token hwide hw htext
    simpa only [List.append_assoc] using htiles

/-- A lexeme stands after an empty gap. -/
theorem cons_token {before w text rest : List Char} {kind : Token.Kind} {ts : List Token}
    (hw : Longest w (text ++ rest) kind) (h : Tiles (before ++ w) text ts rest) :
    Tiles before (w ++ text) (placed kind before w :: ts) rest := by
  have htiles : Tiles before ([] ++ w ++ text) (placed kind (before ++ []) w :: ts) rest :=
    token .none hw (by rwa [List.append_nil])
  simpa only [List.nil_append, List.append_nil] using htiles

/-- Each token stands for a longest lexeme of the text. -/
theorem exists_lexeme {before text rest : List Char} {ts : List Token} {t : Token}
    (h : Tiles before text ts rest) (ht : t ∈ ts) :
    ∃ front w back kind, text = front ++ w ++ back ∧ Longest w (back ++ rest) kind ∧
      t = placed kind (before ++ front) w := by
  induction h with
  | gap => cases ht
  | @token before gap w text rest kind ts _ hw _ ih =>
    rcases List.mem_cons.mp ht with rfl | ht
    · exact ⟨gap, w, text, kind, rfl, hw, rfl⟩
    · obtain ⟨front, v, back, kind', rfl, hv, rfl⟩ := ih ht
      exact ⟨gap ++ w ++ front, v, back, kind', by simp only [List.append_assoc], hv,
        by simp only [List.append_assoc]⟩

/-- The tokens come in the order of the text and do not overlap. -/
theorem pairwise {before text rest : List Char} {ts : List Token}
    (h : Tiles before text ts rest) : ts.Pairwise (·.span.stop ≤ ·.span.start) := by
  induction h with
  | gap => exact .nil
  | @token before gap w text rest kind ts _ _ htext ih =>
    refine .cons (fun t ht => ?_) ih
    obtain ⟨front, v, back, kind', -, -, rfl⟩ := htext.exists_lexeme ht
    simp [placed]

end Tiles

/-! ## What scanning does with each front -/

theorem scanFrom_nil (before : List Char) (acc : List Token) :
    scanFrom (Cursor.start.advance before) [] acc = .ok (acc.reverse ++ [atEnd before]) := by
  rw [scanFrom, Cursor.advance_start, atEnd, placed, List.append_nil]

theorem scanFrom_trivia {before w rest : List Char} {c : Char}
    (h : front c (w ++ rest) = .trivia w.length) (acc : List Token) :
    scanFrom (Cursor.start.advance before) (c :: (w ++ rest)) acc =
      scanFrom (Cursor.start.advance (before ++ c :: w)) rest acc := by
  rw [scanFrom, h]
  simp only [List.take_left, List.drop_left, Cursor.advance_append]

theorem scanFrom_lexeme {before w rest : List Char} {c : Char} {kind : Token.Kind}
    (h : front c (w ++ rest) = .lexeme kind w.length) (acc : List Token) :
    scanFrom (Cursor.start.advance before) (c :: (w ++ rest)) acc =
      scanFrom (Cursor.start.advance (before ++ c :: w)) rest
        (placed kind before (c :: w) :: acc) := by
  rw [scanFrom, h]
  simp only [List.take_left, List.drop_left, ← Cursor.advance_append]
  simp only [Cursor.advance_start, placed]

theorem scanFrom_fault {before rest : List Char} {c : Char} {f : Fault}
    (h : front c rest = .fault f) (acc : List Token) :
    scanFrom (Cursor.start.advance before) (c :: rest) acc =
      .error ⟨f, Position.after before⟩ := by
  rw [scanFrom, h, Cursor.advance_start]

/-- Induction on a text along what stands at its front. -/
theorem front_induction {motive : List Char → Prop} (nil : motive [])
    (trivia : ∀ c w rest, front c (w ++ rest) = .trivia w.length → TriviaPiece (c :: w) rest →
      motive rest → motive (c :: (w ++ rest)))
    (lexeme : ∀ c w rest kind, front c (w ++ rest) = .lexeme kind w.length →
      Longest (c :: w) rest kind → motive rest → motive (c :: (w ++ rest)))
    (fault : ∀ c rest f, front c rest = .fault f → Stuck f c rest → motive (c :: rest))
    (text : List Char) : motive text := by
  induction hn : text.length using Nat.strong_induction_on generalizing text with
  | _ n ih =>
    subst hn
    have hrest (c : Char) (w rest : List Char) : rest.length < (c :: (w ++ rest)).length := by
      simp only [List.length_cons, List.length_append]
      omega
    match text with
    | [] => exact nil
    | c :: cs =>
      cases hfront : front c cs with
      | trivia more =>
        obtain ⟨w, rest, rfl, rfl, hpiece⟩ := front_trivia hfront
        exact trivia c w rest hfront hpiece (ih rest.length (hrest c w rest) rest rfl)
      | lexeme kind more =>
        obtain ⟨w, rest, rfl, rfl, hw⟩ := front_lexeme hfront
        exact lexeme c w rest kind hfront hw (ih rest.length (hrest c w rest) rest rfl)
      | fault f => exact fault c cs f hfront (front_fault hfront)

/-- What scanning the text after `before` comes to: a tiling of all of it, or a tiling up to the
character where reading stops. -/
theorem scanFrom_cases (before text : List Char) (acc : List Token) :
    (∃ ts, scanFrom (Cursor.start.advance before) text acc =
        .ok (acc.reverse ++ ts ++ [atEnd (before ++ text)]) ∧ Tiles before text ts []) ∨
      ∃ read c rest ts f, text = read ++ c :: rest ∧ Tiles before read ts (c :: rest) ∧
        Stuck f c rest ∧ scanFrom (Cursor.start.advance before) text acc =
          .error ⟨f, Position.after (before ++ read)⟩ := by
  induction text using front_induction generalizing before acc with
  | nil =>
    refine Or.inl ⟨[], ?_, .gap .none⟩
    rw [scanFrom_nil, List.append_nil, List.append_nil]
  | trivia c w rest hfront hpiece ih =>
    rw [scanFrom_trivia hfront]
    rcases ih (before ++ c :: w) acc with
      ⟨ts, hscan, htiles⟩ | ⟨read, d, after, ts, f, rfl, htiles, hstuck, hscan⟩
    · refine Or.inl ⟨ts, ?_, htiles.cons_trivia (by rwa [List.append_nil])⟩
      rw [hscan, List.append_assoc before, List.cons_append]
    · refine Or.inr ⟨c :: w ++ read, d, after, ts, f, ?_, htiles.cons_trivia hpiece, hstuck, ?_⟩
      · simp only [List.cons_append, List.append_assoc]
      · rw [hscan, List.append_assoc before]
  | lexeme c w rest kind hfront hw ih =>
    rw [scanFrom_lexeme hfront]
    rcases ih (before ++ c :: w) (placed kind before (c :: w) :: acc) with
      ⟨ts, hscan, htiles⟩ | ⟨read, d, after, ts, f, rfl, htiles, hstuck, hscan⟩
    · refine Or.inl ⟨_, ?_, htiles.cons_token (by rwa [List.append_nil])⟩
      rw [hscan, List.append_assoc before]
      simp
    · refine Or.inr ⟨c :: w ++ read, d, after, _, f, ?_, htiles.cons_token hw, hstuck, ?_⟩
      · simp only [List.cons_append, List.append_assoc]
      · rw [hscan, List.append_assoc before]
  | fault c rest f hfront hstuck =>
    refine Or.inr ⟨[], c, rest, [], f, rfl, .gap .none, hstuck, ?_⟩
    rw [scanFrom_fault hfront, List.append_nil]

theorem scan_cases (source : String) :
    (∃ ts, scan source = .ok (ts ++ [atEnd source.toList]) ∧ Tiles [] source.toList ts []) ∨
      ∃ read c rest ts f, source.toList = read ++ c :: rest ∧ Tiles [] read ts (c :: rest) ∧
        Stuck f c rest ∧ scan source = .error ⟨f, Position.after read⟩ :=
  scanFrom_cases [] source.toList []

/-- The tokens of a text tile it, up to the one for its end. -/
theorem scan_eq_ok {source : String} {ts : List Token} (h : scan source = .ok ts) :
    ∃ body, ts = body ++ [atEnd source.toList] ∧ Tiles [] source.toList body [] := by
  rcases scan_cases source with ⟨body, hscan, htiles⟩ | ⟨_, _, _, _, _, -, -, -, hscan⟩
  · exact ⟨body, Except.ok.inj (h.symm.trans hscan), htiles⟩
  · cases h.symm.trans hscan

/-- A token of a text stands for its end or for a longest lexeme. -/
theorem mem_scan {source : String} {ts : List Token} {t : Token} (h : scan source = .ok ts)
    (ht : t ∈ ts) :
    t = atEnd source.toList ∨ ∃ before w after kind, source.toList = before ++ w ++ after ∧
      Longest w after kind ∧ t = placed kind before w := by
  obtain ⟨body, rfl, htiles⟩ := scan_eq_ok h
  rcases List.mem_append.mp ht with hbody | hend
  · obtain ⟨before, w, after, kind, hsource, hw, rfl⟩ := htiles.exists_lexeme hbody
    rw [List.append_nil] at hw
    exact Or.inr ⟨before, w, after, kind, hsource, hw, rfl⟩
  · exact Or.inl (List.mem_singleton.mp hend)

/-- A token has the offset and the position of the text before it. -/
theorem exists_place_of_mem_scan {source : String} {ts : List Token} {t : Token}
    (h : scan source = .ok ts) (ht : t ∈ ts) :
    ∃ before after, source.toList = before ++ after ∧ t.span.start = Text.byteLength before ∧
      t.pos = Position.after before := by
  rcases mem_scan h ht with rfl | ⟨before, w, after, kind, hsource, -, rfl⟩
  · exact ⟨source.toList, [], (List.append_nil _).symm, rfl, rfl⟩
  · exact ⟨before, w ++ after, by rw [hsource, List.append_assoc], rfl, rfl⟩

/-- Scanning fails at a character where it is stuck. -/
theorem scan_eq_error {source : String} {e : ScanError} (h : scan source = .error e) :
    ∃ before c after, source.toList = before ++ c :: after ∧ Stuck e.fault c after ∧
      e.pos = Position.after before := by
  rcases scan_cases source with ⟨_, hscan, -⟩ | ⟨before, c, after, _, f, hsource, -, hstuck, hscan⟩
  · cases h.symm.trans hscan
  · obtain rfl := Except.error.inj (h.symm.trans hscan)
    exact ⟨before, c, after, hsource, hstuck, rfl⟩

/-- Trivia is passed over. -/
theorem scanFrom_gap {gap rest : List Char} (h : Trivia gap rest) (before : List Char)
    (acc : List Token) :
    scanFrom (Cursor.start.advance before) (gap ++ rest) acc =
      scanFrom (Cursor.start.advance (before ++ gap)) rest acc := by
  induction h generalizing before with
  | none => rw [List.nil_append, List.append_nil]
  | @cons piece gap rest hpiece _ ih =>
    obtain ⟨c, w, rfl⟩ := hpiece.exists_cons
    rw [List.append_assoc, List.cons_append, scanFrom_trivia (front_of_triviaPiece hpiece), ih,
      List.append_assoc]

/-- Scanning a text that is tiled gives the tokens of the tiling. -/
theorem Tiles.scanFrom_eq {before text : List Char} {ts : List Token} (h : Tiles before text ts [])
    (acc : List Token) :
    scanFrom (Cursor.start.advance before) text acc =
      .ok (acc.reverse ++ ts ++ [atEnd (before ++ text)]) := by
  generalize hrest : ([] : List Char) = rest at h
  induction h generalizing acc with
  | gap hgap =>
    subst hrest
    have hskip := scanFrom_gap hgap
    simp only [List.append_nil] at hskip
    rw [hskip, scanFrom_nil, List.append_nil]
  | @token before gap w text rest kind ts hgap hw _ ih =>
    subst hrest
    obtain ⟨c, w, rfl⟩ := hw.1.exists_cons
    simp only [List.append_nil] at hgap hw
    rw [List.append_assoc, scanFrom_gap hgap, List.cons_append, scanFrom_lexeme (front_of_longest hw),
      ih _ rfl]
    simp

/-- A lexeme alone is one token. -/
theorem scan_lexeme {w : List Char} {kind : Token.Kind} (h : Lexeme w kind) :
    scan (String.ofList w) = .ok [placed kind [] w, atEnd w] := by
  obtain ⟨c, w, rfl⟩ := h.exists_cons
  have hfront : front c (w ++ []) = .lexeme kind w.length := by
    rw [List.append_nil, front_of_lexeme h]
  calc scan (String.ofList (c :: w))
      = scanFrom (Cursor.start.advance []) (c :: (w ++ [])) [] := by
        rw [scan, String.toList_ofList, List.append_nil, Cursor.advance_nil]
    _ = scanFrom (Cursor.start.advance ([] ++ c :: w)) [] [placed kind [] (c :: w)] :=
        scanFrom_lexeme hfront []
    _ = .ok [placed kind [] (c :: w), atEnd (c :: w)] := scanFrom_nil _ _

/-! ## Tokens of a whole text -/

theorem Lexeme.kind_ne_endOfFile {w : List Char} {kind : Token.Kind} (h : Lexeme w kind) :
    kind ≠ .endOfFile := by
  cases h <;> exact nofun

/-- The text of a token is the lexeme that it stands for. -/
theorem lexeme_placed {source : String} {before w after : List Char} (kind : Token.Kind)
    (h : source.toList = before ++ w ++ after) :
    (placed kind before w).lexeme source = String.ofList w :=
  Text.sliceBytes_append h

/-- Scanning a text gives tokens that tile it, in order, and one token for its end. Each other token
has a span of its own that is not empty, its text is the longest lexeme that starts there, and alone
that text is scanned as the same kind. Otherwise the text before one character is tiled in this way,
and at that character stands neither a lexeme nor trivia. This is about `scan`, and so about every
scanner that takes the longest matches of the patterns (`LeftmostLongest.scan_eq`). -/
theorem scan_tiling (source : String) :
    (∃ ts : List Token, scan source = .ok (ts ++ [atEnd source.toList]) ∧
      (atEnd source.toList).span = ⟨source.utf8ByteSize, source.utf8ByteSize⟩ ∧
      Tiles [] source.toList ts [] ∧ ts.Pairwise (·.span.stop ≤ ·.span.start) ∧
      ∀ t ∈ ts, t.kind ≠ .endOfFile ∧ t.span.start < t.span.stop ∧
        (∃ before after, source.toList = before ++ (t.lexeme source).toList ++ after ∧
          t.span.start = Text.byteLength before ∧
          t.span.stop = Text.byteLength (before ++ (t.lexeme source).toList) ∧
          Longest (t.lexeme source).toList after t.kind) ∧
        scan (t.lexeme source) = .ok [placed t.kind [] (t.lexeme source).toList,
          atEnd (t.lexeme source).toList]) ∨
    ∃ read c rest ts f, source.toList = read ++ c :: rest ∧ Tiles [] read ts (c :: rest) ∧
      Stuck f c rest ∧ scan source = .error ⟨f, Position.after read⟩ := by
  refine (scan_cases source).imp ?_ id
  rintro ⟨ts, hscan, htiles⟩
  refine ⟨ts, hscan, ?_, htiles, htiles.pairwise, fun t ht => ?_⟩
  · rw [atEnd, placed, List.append_nil, Text.byteLength_toList]
  · obtain ⟨front, w, back, kind, hsource, hw, rfl⟩ := htiles.exists_lexeme ht
    rw [List.append_nil] at hw
    rw [List.nil_append, lexeme_placed kind hsource, String.toList_ofList]
    obtain ⟨c, v, rfl⟩ := hw.1.exists_cons
    have hpos : 0 < Text.byteLength (c :: v) := Text.byteLength_pos (List.cons_ne_nil c v)
    refine ⟨hw.1.kind_ne_endOfFile, ?_, ⟨front, back, hsource, rfl, rfl, hw⟩, scan_lexeme hw.1⟩
    simpa [placed] using hpos

end Scriptlet.Token
