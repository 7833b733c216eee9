import Scriptlet.Proofs.Token.Tiling

/-! # Scanning with a line mark

`scan` counts lines and columns as it goes. The same positions come from less: the number of the
line that is being read and the byte offset at which it starts, with the column counted in the text
between that offset and the lexeme. `scanFromMark` scans with such a mark. A line break sets it, and
a block comment follows its own copy, which counts only once the comment is closed. Both scans agree
(`scanByLines_eq_scan`) whatever column is taken where no text lies between the mark and the lexeme,
so that case does not arise.
-/

namespace Scriptlet.Token

/-- The line that is being read: its number, and the byte offset at which it starts. -/
structure LineMark where
  line : Nat
  start : Nat

namespace LineMark

/-- The position of a byte offset in the marked line. The column is counted in the text from the
mark on; `fallback` stands for that count if the two offsets do not cut the text. -/
def position (fallback : Nat) (source : List Char) (m : LineMark) (offset : Nat) : Position where
  line := m.line
  column := ((Text.sliceBytes? m.start offset source).map List.length).getD fallback + 1

/-- The mark at the end of a block comment that is open `depth + 1` levels deep, if it is closed. -/
def throughComment? : List Char → Nat → Nat → LineMark → Option LineMark
  | '#' :: '|' :: cs, depth, offset, m => throughComment? cs (depth + 1) (offset + 2) m
  | '|' :: '#' :: _, 0, _, m => some m
  | '|' :: '#' :: cs, depth + 1, offset, m => throughComment? cs depth (offset + 2) m
  | '\n' :: cs, depth, offset, m => throughComment? cs depth (offset + 1) ⟨m.line + 1, offset + 1⟩
  | c :: cs, depth, offset, m => throughComment? cs depth (offset + c.utf8Size) m
  | [], _, _, _ => none

/-- The mark after the piece of trivia that starts with the character `c` at the given offset. Of
all trivia, line breaks and block comments hold line breaks. -/
def pastTrivia (m : LineMark) (offset : Nat) (c : Char) (cs : List Char) : LineMark :=
  if c = '\n' then ⟨m.line + 1, offset + 1⟩
  else if c = '#' then (throughComment? cs.tail 0 (offset + 2) m).getD m
  else m

/-- The mark after a text. -/
def after (before : List Char) : LineMark where
  line := 1 + before.count '\n'
  start := Text.byteLength before - Text.byteLength (Text.lastLine before)

end LineMark

/-- The tokens of the text `cs`, which stands at a byte offset of `source` in the marked line. -/
def scanFromMark (fallback : Nat) (source : List Char) (offset : Nat) (m : LineMark)
    (cs : List Char) (before : List Token) : Except ScanError (List Token) :=
  match cs with
  | [] => .ok (before.reverse ++
      [⟨.endOfFile, m.position fallback source offset, ⟨offset, offset⟩⟩])
  | c :: cs =>
    match front c cs with
    | .trivia more =>
      scanFromMark fallback source (offset + Text.byteLength (c :: cs.take more))
        (m.pastTrivia offset c cs) (cs.drop more) before
    | .lexeme kind more =>
      let next := offset + Text.byteLength (c :: cs.take more)
      scanFromMark fallback source next m (cs.drop more)
        (⟨kind, m.position fallback source offset, ⟨offset, next⟩⟩ :: before)
    | .fault f => .error ⟨f, m.position fallback source offset⟩
termination_by cs.length
decreasing_by all_goals (simp only [List.length_drop, List.length_cons]; omega)

/-- The tokens of a text, with positions counted from line marks. -/
def scanByLines (fallback : Nat) (source : String) : Except ScanError (List Token) :=
  scanFromMark fallback source.toList 0 ⟨1, 0⟩ source.toList []

/-! ## The mark after a text -/

namespace LineMark

theorem after_concat (before : List Char) (c : Char) :
    after (before ++ [c]) =
      if c = '\n' then ⟨(after before).line + 1, Text.byteLength before + 1⟩ else after before := by
  have hbreak : '\n'.utf8Size = 1 := rfl
  by_cases h : c = '\n'
  · simp [after, Text.lastLine_concat, h, hbreak, Nat.add_assoc]
  · simp [after, Text.lastLine_concat, h, Nat.add_sub_add_right]

theorem after_append {w : List Char} (h : '\n' ∉ w) (before : List Char) :
    after (before ++ w) = after before := by
  induction w using List.reverseRecOn with
  | nil => rw [List.append_nil]
  | append_singleton w c ih =>
    rw [List.mem_append, List.mem_singleton, not_or] at h
    rw [← List.append_assoc, after_concat, if_neg (Ne.symm h.2), ih h.1]

/-- The position of a place, counted from the mark of the text before it. -/
theorem position_after (fallback : Nat) (before rest : List Char) :
    (after before).position fallback (before ++ rest) (Text.byteLength before) =
      Position.after before := by
  obtain ⟨lines, hbefore⟩ := Text.lastLine_suffix before
  have hstart : (after before).start = Text.byteLength lines := by
    rw [after, ← congrArg Text.byteLength hbefore, Text.byteLength_append, Nat.add_sub_cancel]
  have hslice : Text.sliceBytes? (Text.byteLength lines) (Text.byteLength before)
      (before ++ rest) = some (Text.lastLine before) := by
    have hcut := Text.sliceBytes?_append lines (Text.lastLine before) rest
    rwa [hbefore] at hcut
  rw [position, hstart, hslice, Option.map_some, Option.getD_some, Nat.add_comm]
  rfl

/-! ## The mark after trivia -/

/-- A character that makes no pair with the next one moves the mark if it is a line break. -/
theorem throughComment?_char {c : Char} {cs : List Char} (hopen : c = '#' → cs.head? ≠ some '|')
    (hclose : c = '|' → cs.head? ≠ some '#') (depth : Nat) (before : List Char) :
    throughComment? (c :: cs) depth (Text.byteLength before) (after before) =
      throughComment? cs depth (Text.byteLength (before ++ [c])) (after (before ++ [c])) := by
  rw [after_concat]
  by_cases hbreak : c = '\n'
  · subst hbreak
    rw [if_pos rfl, Text.byteLength_append]
    rfl
  · rw [if_neg hbreak, throughComment?, Text.byteLength_append, Text.byteLength_cons,
      Text.byteLength_nil, Nat.add_zero]
    · rintro _ rfl rfl
      exact hopen rfl rfl
    · exact hbreak
    · rintro _ - rfl rfl
      exact hclose rfl rfl
    · rintro _ _ - rfl rfl
      exact hclose rfl rfl

/-- The delimiters of block comments lie in one line and are two bytes long. -/
theorem after_delimiter {w : List Char} (hw : w = ['#', '|'] ∨ w = ['|', '#'])
    (before : List Char) :
    after (before ++ w) = after before ∧
      Text.byteLength (before ++ w) = Text.byteLength before + 2 := by
  rcases hw with rfl | rfl <;>
    exact ⟨after_append (by decide) before, Text.byteLength_append before _⟩

/-- What the end of a comment's body leads to. -/
def closeMark? (before rest : List Char) : Nat → Option LineMark
  | 0 => some (after before)
  | depth + 1 => throughComment? rest depth (Text.byteLength before) (after before)

/-- The mark is carried through the body of a comment. -/
theorem throughComment?_append {body : List Char} (h : CommentBody body)
    (before rest : List Char) (depth : Nat) :
    throughComment? (body ++ rest) depth (Text.byteLength before) (after before) =
      closeMark? (before ++ body) rest depth := by
  induction h generalizing before rest depth with
  | close =>
    obtain ⟨hafter, hlength⟩ := after_delimiter (.inr rfl) before
    cases depth with
    | zero => rw [closeMark?, hafter]; rfl
    | succ depth => rw [closeMark?, hafter, hlength]; rfl
  | @char c body hopen hclose hbody ih =>
    rw [← hbody.head?_append rest] at hopen hclose
    rw [List.cons_append, throughComment?_char hopen hclose, ih, List.append_assoc,
      List.singleton_append]
  | @nested inner body _ _ ihInner ihBody =>
    obtain ⟨hafter, hlength⟩ := after_delimiter (.inl rfl) before
    have hstep : throughComment? ('#' :: '|' :: (inner ++ body) ++ rest) depth
        (Text.byteLength before) (after before) =
          throughComment? (inner ++ (body ++ rest)) (depth + 1)
            (Text.byteLength (before ++ ['#', '|'])) (after (before ++ ['#', '|'])) := by
      rw [hafter, hlength, ← List.append_assoc]
      rfl
    rw [hstep, ihInner, closeMark?, ihBody]
    simp only [List.append_assoc, List.cons_append, List.nil_append]

theorem pastTrivia_after {c : Char} {w rest : List Char} (h : TriviaPiece (c :: w) rest)
    (before : List Char) :
    (after before).pastTrivia (Text.byteLength before) c (w ++ rest) =
      after (before ++ c :: w) := by
  have hother (hbreak : '\n' ∉ c :: w) (hblock : c ≠ '#') :
      (after before).pastTrivia (Text.byteLength before) c (w ++ rest) =
        after (before ++ c :: w) := by
    rw [after_append hbreak, pastTrivia, if_neg fun hc => hbreak (by simp [hc]), if_neg hblock]
  cases h with
  | blank hc =>
    refine hother ?_ ?_
    · rw [List.mem_singleton]
      rintro rfl
      cases hc
    · rintro rfl
      cases hc
  | lineBreak => rw [after_concat, if_pos rfl, pastTrivia, if_pos rfl]
  | lineComment hcs => exact hother (by simpa using hcs) (by decide)
  | @blockComment body _ hbody =>
    obtain ⟨hafter, hlength⟩ := after_delimiter (.inl rfl) before
    have hthrough := throughComment?_append hbody (before ++ ['#', '|']) rest 0
    rw [hafter, hlength, closeMark?] at hthrough
    rw [pastTrivia, if_neg (by decide), if_pos rfl, List.cons_append, List.tail_cons, hthrough]
    simp only [Option.getD_some, List.append_assoc, List.cons_append, List.nil_append]

end LineMark

/-! ## Lexemes lie in one line -/

theorem Lexeme.lineBreak_notMem {w : List Char} {kind : Token.Kind} (h : Lexeme w kind) :
    '\n' ∉ w := by
  intro hmem
  have htrivia := h.startsTrivia_of_mem '\n' hmem
  cases htrivia

/-! ## Both scans agree -/

/-- Scanning from the mark of the text before is scanning from the cursor after that text. -/
theorem scanFromMark_after (fallback : Nat) (before text : List Char) (acc : List Token) :
    scanFromMark fallback (before ++ text) (Text.byteLength before) (.after before) text acc =
      scanFrom (Cursor.start.advance before) text acc := by
  induction text using front_induction generalizing before acc with
  | nil =>
    have hposition := LineMark.position_after fallback before []
    rw [scanFromMark, scanFrom_nil, hposition, atEnd, placed, List.append_nil]
  | trivia c w rest hfront hpiece ih =>
    have hagree := ih (before ++ c :: w) acc
    rw [List.append_assoc, List.cons_append, Text.byteLength_append] at hagree
    rw [scanFrom_trivia hfront, scanFromMark, hfront]
    simp only [List.take_left, List.drop_left, LineMark.pastTrivia_after hpiece]
    exact hagree
  | lexeme c w rest kind hfront hw ih =>
    have hposition := LineMark.position_after fallback before (c :: (w ++ rest))
    have hagree := ih (before ++ c :: w) (placed kind before (c :: w) :: acc)
    -- a lexeme does not move the mark
    rw [LineMark.after_append hw.1.lineBreak_notMem, List.append_assoc, List.cons_append,
      Text.byteLength_append] at hagree
    rw [scanFrom_lexeme hfront, ← hagree, scanFromMark, hfront]
    simp only [List.take_left, List.drop_left, hposition, placed, Text.byteLength_append]
  | fault c rest f hfront _ =>
    have hposition := LineMark.position_after fallback before (c :: rest)
    rw [scanFrom_fault hfront, scanFromMark, hfront, hposition]

theorem scanByLines_eq_scan (fallback : Nat) (source : String) :
    scanByLines fallback source = scan source :=
  scanFromMark_after fallback [] source.toList []

/-- The positions of tokens and of faults are true: each is the position after the text before it,
and the count of columns from line marks never falls back. -/
theorem scan_positions (source : String) :
    (∀ fallback, scanByLines fallback source = scan source) ∧
    ((∃ ts, scan source = .ok ts ∧ ∀ t ∈ ts, ∃ before after,
        source.toList = before ++ after ∧ t.span.start = Text.byteLength before ∧
          t.pos = Position.after before) ∨
      ∃ before c after ts f, source.toList = before ++ c :: after ∧
        Tiles [] before ts (c :: after) ∧ Stuck f c after ∧
        scan source = .error ⟨f, Position.after before⟩) := by
  refine ⟨fun fallback => scanByLines_eq_scan fallback source, (scan_cases source).imp ?_ id⟩
  rintro ⟨ts, hscan, -⟩
  exact ⟨_, hscan, fun t ht => exists_place_of_mem_scan hscan ht⟩

end Scriptlet.Token
