import Scriptlet.Proofs.Token.Tiling

/-! # Block comments nest exactly

A block comment is read piece by piece, from left to right and without overlap: `#|` opens a level,
`|#` closes one, and any other character stands for itself (`commentPieces`). The comment ends with
the first pair that leaves no level open (`Closes`).

The scanner counts characters up to there (`commentLength?_eq_some_iff`). Counting the bytes of the
text instead, without looking at characters, stops at the same place
(`commentByteLength?_eq_some_iff`): no byte of a longer character is a number sign or a bar, so a
comment never ends inside a character.
-/

namespace Scriptlet

namespace Token

/-! ## Pieces and levels -/

/-- What a comment consists of: pairs that open or close a level, and single characters. -/
inductive CommentPiece where
  | opening
  | closing
  | char (c : Char)

namespace CommentPiece

/-- The characters of a piece. -/
def text : CommentPiece → List Char
  | opening => ['#', '|']
  | closing => ['|', '#']
  | char c => [c]

/-- How many levels a piece adds to those that are open. -/
def levels : CommentPiece → Int
  | opening => 1
  | closing => -1
  | char _ => 0

end CommentPiece

/-- The pieces of a text, taken from left to right without overlap. -/
def commentPieces : List Char → List CommentPiece
  | '#' :: '|' :: cs => .opening :: commentPieces cs
  | '|' :: '#' :: cs => .closing :: commentPieces cs
  | c :: cs => .char c :: commentPieces cs
  | [] => []

/-- The characters of pieces. -/
def piecesText (ps : List CommentPiece) : List Char :=
  ps.flatMap CommentPiece.text

/-- The number of levels that are open after the pieces, if `start` of them are open before. -/
def depthAfter (start : Int) (ps : List CommentPiece) : Int :=
  ps.foldl (· + ·.levels) start

/-- The pieces end with the first one after which no level is open. -/
def Closes (start : Int) (ps : List CommentPiece) : Prop :=
  depthAfter start ps = 0 ∧ ∀ qs, qs <+: ps → depthAfter start qs = 0 → qs = ps

theorem depthAfter_nil (start : Int) : depthAfter start [] = start := rfl

theorem depthAfter_cons (start : Int) (p : CommentPiece) (ps : List CommentPiece) :
    depthAfter start (p :: ps) = depthAfter (start + p.levels) ps := rfl

theorem closes_nil {start : Int} : Closes start [] ↔ start = 0 := by
  simp [Closes, depthAfter_nil]

theorem closes_zero {ps : List CommentPiece} : Closes 0 ps ↔ ps = [] := by
  constructor
  · rintro ⟨-, hfirst⟩
    exact (hfirst [] List.nil_prefix (depthAfter_nil 0)).symm
  · rintro rfl
    exact closes_nil.mpr rfl

/-- As long as a level is open, the next piece does not come after the end. -/
theorem closes_cons {start : Int} (hstart : start ≠ 0) {p : CommentPiece}
    {ps : List CommentPiece} : Closes start (p :: ps) ↔ Closes (start + p.levels) ps := by
  rw [Closes, Closes, depthAfter_cons]
  refine and_congr_right fun _ => ⟨fun hfirst qs hqs hzero => ?_, fun hfirst qs hqs hzero => ?_⟩
  · have hcons : p :: qs = p :: ps :=
      hfirst (p :: qs) (List.cons_prefix_cons.mpr ⟨rfl, hqs⟩) (by rwa [depthAfter_cons])
    exact (List.cons.inj hcons).2
  · rcases List.prefix_cons_iff.mp hqs with rfl | ⟨rs, rfl, hrs⟩
    · rw [depthAfter_nil] at hzero
      exact absurd hzero hstart
    · rw [depthAfter_cons] at hzero
      rw [hfirst rs hrs hzero]

/-- Reading the pieces from a depth on, with `taken` units read before, no level is open for the
first time when `n` units are read. Pieces have the given size in units. -/
def ClosesAt (size : CommentPiece → Nat) (start : Int) (ps : List CommentPiece) (taken n : Nat) :
    Prop :=
  ∃ qs rest, ps = qs ++ rest ∧ Closes start qs ∧ n = qs.foldl (· + size ·) taken

section ClosesAt

variable {size : CommentPiece → Nat} {start : Int} {ps : List CommentPiece} {taken n : Nat}

theorem closesAt_zero : ClosesAt size 0 ps taken n ↔ n = taken := by
  constructor
  · rintro ⟨qs, rest, -, hqs, rfl⟩
    rw [closes_zero.mp hqs]
    rfl
  · rintro rfl
    exact ⟨[], ps, rfl, closes_zero.mpr rfl, rfl⟩

theorem not_closesAt_nil (hstart : start ≠ 0) : ¬ ClosesAt size start [] taken n := by
  rintro ⟨qs, rest, hnil, hqs, -⟩
  rw [(List.append_eq_nil_iff.mp hnil.symm).1] at hqs
  exact hstart (closes_nil.mp hqs)

theorem closesAt_cons (hstart : start ≠ 0) {p : CommentPiece} :
    ClosesAt size start (p :: ps) taken n ↔
      ClosesAt size (start + p.levels) ps (taken + size p) n := by
  constructor
  · rintro ⟨qs, rest, heq, hqs, rfl⟩
    cases qs with
    | nil => exact absurd (closes_nil.mp hqs) hstart
    | cons q qs =>
      obtain ⟨rfl, rfl⟩ := List.cons.inj heq
      exact ⟨qs, rest, rfl, (closes_cons hstart).mp hqs, rfl⟩
  · rintro ⟨qs, rest, rfl, hqs, rfl⟩
    exact ⟨p :: qs, rest, rfl, (closes_cons hstart).mpr hqs, rfl⟩

/-- A closing pair closes the last level. -/
theorem closesAt_closing_zero :
    ClosesAt size ((0 : Nat) + 1) (.closing :: ps) taken n ↔ n = taken + size .closing := by
  rw [closesAt_cons (by omega)]
  exact closesAt_zero

/-- A closing pair leaves one level less. -/
theorem closesAt_closing_succ (depth : Nat) :
    ClosesAt size ((depth + 1 : Nat) + 1) (.closing :: ps) taken n ↔
      ClosesAt size (depth + 1) ps (taken + size .closing) n := by
  have hlevel : ((depth + 1 : Nat) + 1 : Int) + CommentPiece.closing.levels = depth + 1 := by
    rw [CommentPiece.levels]
    omega
  rw [closesAt_cons (by omega), hlevel]

theorem closesAt_opening (depth : Nat) :
    ClosesAt size (depth + 1) (.opening :: ps) taken n ↔
      ClosesAt size ((depth + 1 : Nat) + 1) ps (taken + size .opening) n :=
  closesAt_cons (by omega)

theorem closesAt_char (c : Char) (depth : Nat) :
    ClosesAt size (depth + 1) (.char c :: ps) taken n ↔
      ClosesAt size (depth + 1) ps (taken + size (.char c)) n := by
  rw [closesAt_cons (by omega), CommentPiece.levels, Int.add_zero]

end ClosesAt

/-! ## Counting characters -/

theorem commentPieces_char {c : Char} {cs : List Char} (hopen : c = '#' → cs.head? ≠ some '|')
    (hclose : c = '|' → cs.head? ≠ some '#') :
    commentPieces (c :: cs) = .char c :: commentPieces cs := by
  rw [commentPieces]
  · rintro _ rfl rfl
    exact hopen rfl rfl
  · rintro _ rfl rfl
    exact hclose rfl rfl

/-- Induction on a text along its pieces. -/
theorem commentPieces_induction {motive : List Char → Prop} (nil : motive [])
    (opening : ∀ cs, motive cs → motive ('#' :: '|' :: cs))
    (closing : ∀ cs, motive cs → motive ('|' :: '#' :: cs))
    (char : ∀ c cs, (c = '#' → cs.head? ≠ some '|') → (c = '|' → cs.head? ≠ some '#') →
      motive cs → motive (c :: cs))
    (cs : List Char) : motive cs := by
  induction cs using commentPieces.induct with
  | case1 cs ih => exact opening cs ih
  | case2 cs ih => exact closing cs ih
  | case3 c cs hopen hclose ih =>
    refine char c cs (fun hc hhead => ?_) (fun hc hhead => ?_) ih
    · obtain ⟨rest, rfl⟩ := List.head?_eq_some_iff.mp hhead
      exact hopen rest hc rfl
    · obtain ⟨rest, rfl⟩ := List.head?_eq_some_iff.mp hhead
      exact hclose rest hc rfl
  | case4 => exact nil

theorem piecesText_cons (p : CommentPiece) (ps : List CommentPiece) :
    piecesText (p :: ps) = p.text ++ piecesText ps :=
  List.flatMap_cons

/-- The pieces of a text make it up. -/
theorem piecesText_commentPieces (cs : List Char) : piecesText (commentPieces cs) = cs := by
  induction cs using commentPieces_induction with
  | nil => rfl
  | opening cs ih | closing cs ih =>
    rw [commentPieces, piecesText_cons, ih]
    rfl
  | char c cs hopen hclose ih =>
    rw [commentPieces_char hopen hclose, piecesText_cons, ih]
    rfl

theorem piecesText_append (ps qs : List CommentPiece) :
    piecesText (ps ++ qs) = piecesText ps ++ piecesText qs :=
  List.flatMap_append

/-- Counting up the sizes of pieces counts the size of their text, if sizes add up. -/
theorem foldl_size {size : List Char → Nat} (hnil : size [] = 0)
    (happend : ∀ u v, size (u ++ v) = size u + size v) (ps : List CommentPiece) (taken : Nat) :
    ps.foldl (· + size ·.text) taken = taken + size (piecesText ps) := by
  induction ps generalizing taken with
  | nil =>
    rw [piecesText, List.flatMap_nil, hnil]
    rfl
  | cons p ps ih =>
    rw [List.foldl_cons, ih, piecesText_cons, happend, Nat.add_assoc]

/-- The scanner counts the characters up to the first pair that leaves no level open. -/
theorem commentLength?_eq_some_iff (cs : List Char) (depth taken more : Nat) :
    commentLength? cs depth taken = some more ↔
      ClosesAt (·.text.length) (depth + 1) (commentPieces cs) taken more := by
  induction cs using commentPieces_induction generalizing depth taken with
  | nil =>
    have hopen : ¬ ClosesAt (·.text.length) (depth + 1) [] taken more := not_closesAt_nil (by omega)
    rw [commentLength?, commentPieces]
    exact iff_of_false (fun h => by cases h) hopen
  | opening cs ih =>
    rw [commentPieces, closesAt_opening]
    exact ih (depth + 1) (taken + 2)
  | closing cs ih =>
    rw [commentPieces]
    cases depth with
    | zero =>
      rw [closesAt_closing_zero, commentLength?, Option.some.injEq, eq_comm]
      rfl
    | succ depth =>
      rw [closesAt_closing_succ]
      exact ih depth (taken + 2)
  | char c cs hopen hclose ih =>
    rw [commentLength?_char hopen hclose, ih, commentPieces_char hopen hclose, closesAt_char]
    rfl

/-! ## Counting bytes -/

/-- The bytes of a text. -/
def utf8 (cs : List Char) : List UInt8 :=
  cs.flatMap String.utf8EncodeChar

/-- The number of bytes up to the end of a block comment that is open `depth + 1` levels deep,
counted on from `taken`. Only the bytes are looked at, not the characters that they belong to. -/
def commentByteLength? (bs : List UInt8) (depth taken : Nat) : Option Nat :=
  match bs with
  | [] => none
  | b :: bs =>
    if b = '#'.toUInt8 ∧ bs.head? = some '|'.toUInt8 then
      commentByteLength? bs.tail (depth + 1) (taken + 2)
    else if b = '|'.toUInt8 ∧ bs.head? = some '#'.toUInt8 then
      if depth = 0 then some (taken + 2) else commentByteLength? bs.tail (depth - 1) (taken + 2)
    else commentByteLength? bs depth (taken + 1)
termination_by bs.length
decreasing_by all_goals (simp only [List.length_tail, List.length_cons]; omega)

/-- The bytes of a character that takes more than one of them are not those of short characters. -/
theorem le_of_mem_utf8EncodeChar {c : Char} (hc : 127 < c.val.toNat) {b : UInt8}
    (hb : b ∈ String.utf8EncodeChar c) : 128 ≤ b.toNat := by
  simp only [String.utf8EncodeChar, if_neg (Nat.not_le.mpr hc)] at hb
  split_ifs at hb <;>
    simp only [List.mem_cons, List.not_mem_nil, or_false] at hb <;>
    rcases hb with rfl | rfl | rfl | rfl <;>
    simp only [UInt8.toNat_ofNat'] <;>
    omega

/-- A character of one byte is that byte. -/
theorem utf8EncodeChar_short {c : Char} (hc : c.val.toNat ≤ 127) :
    String.utf8EncodeChar c = [c.toUInt8] := by
  have hsize := Char.utf8Size_eq_one_iff.mpr (UInt32.le_iff_toNat_le.mpr hc)
  rw [String.utf8EncodeChar_eq_singleton hsize]
  rfl

theorem toUInt8_inj_of_short {c d : Char} (hc : c.val.toNat ≤ 127) (hd : d.val.toNat ≤ 127)
    (h : c.toUInt8 = d.toUInt8) : c = d := by
  have hbyte : c.val.toNat % 256 = d.val.toNat % 256 := congrArg UInt8.toNat h
  refine Char.ext (UInt32.toNat_inj.mp ?_)
  omega

/-- The byte of a short character comes first exactly if that character does. -/
theorem head?_utf8_iff {d : Char} (hd : d.val.toNat ≤ 127) (cs : List Char) :
    (utf8 cs).head? = some d.toUInt8 ↔ cs.head? = some d := by
  cases cs with
  | nil => simp [utf8]
  | cons c cs =>
    rw [utf8, List.flatMap_cons, ← utf8, List.head?_cons, Option.some.injEq]
    by_cases hc : c.val.toNat ≤ 127
    · rw [utf8EncodeChar_short hc, List.cons_append, List.head?_cons, Option.some.injEq]
      exact ⟨toUInt8_inj_of_short hc hd, fun h => by rw [h]⟩
    · -- the bytes of a longer character lie in another range
      refine iff_of_false (fun h => ?_) (fun h => hc (h ▸ hd))
      have hmem : d.toUInt8 ∈ String.utf8EncodeChar c := by
        cases hbytes : String.utf8EncodeChar c with
        | nil =>
          have hlength := String.length_utf8EncodeChar c
          rw [hbytes] at hlength
          exact absurd hlength.symm (Nat.ne_of_gt c.utf8Size_pos)
        | cons b bs =>
          rw [hbytes, List.cons_append, List.head?_cons, Option.some.injEq] at h
          rw [h]
          exact List.mem_cons_self
      have hlong := le_of_mem_utf8EncodeChar (Nat.lt_of_not_le hc) hmem
      have hshort : d.toUInt8.toNat = d.val.toNat % 256 := rfl
      omega

/-- A byte that makes no pair with the next one is passed over. -/
theorem commentByteLength?_cons {b : UInt8} {bs : List UInt8}
    (hopen : b = '#'.toUInt8 → bs.head? ≠ some '|'.toUInt8)
    (hclose : b = '|'.toUInt8 → bs.head? ≠ some '#'.toUInt8) (depth taken : Nat) :
    commentByteLength? (b :: bs) depth taken = commentByteLength? bs depth (taken + 1) := by
  rw [commentByteLength?, if_neg fun h => hopen h.1 h.2, if_neg fun h => hclose h.1 h.2]

theorem commentByteLength?_long {bs : List UInt8} (hbs : ∀ b ∈ bs, 128 ≤ b.toNat)
    (rest : List UInt8) (depth taken : Nat) :
    commentByteLength? (bs ++ rest) depth taken =
      commentByteLength? rest depth (taken + bs.length) := by
  induction bs generalizing taken with
  | nil => rfl
  | cons b bs ih =>
    have hb : 128 ≤ b.toNat := hbs b List.mem_cons_self
    have hne {d : Char} (hd : d.toUInt8.toNat < 128) : b ≠ d.toUInt8 := by
      rintro rfl
      omega
    rw [List.cons_append, commentByteLength?_cons (fun h => absurd h (hne (by decide)))
      (fun h => absurd h (hne (by decide))), ih fun d hd => hbs d (List.mem_cons_of_mem b hd),
      List.length_cons, Nat.add_assoc, Nat.add_comm 1]

/-- A character that makes no pair with the next one is passed over with all its bytes. -/
theorem commentByteLength?_char {c : Char} {cs : List Char}
    (hopen : c = '#' → cs.head? ≠ some '|') (hclose : c = '|' → cs.head? ≠ some '#')
    (depth taken : Nat) :
    commentByteLength? (utf8 (c :: cs)) depth taken =
      commentByteLength? (utf8 cs) depth (taken + c.utf8Size) := by
  rw [utf8, List.flatMap_cons, ← utf8, ← String.length_utf8EncodeChar]
  by_cases hc : c.val.toNat ≤ 127
  · rw [utf8EncodeChar_short hc]
    refine commentByteLength?_cons (fun h hhead => ?_) (fun h hhead => ?_) depth taken
    · exact hopen (toUInt8_inj_of_short hc (by decide) h) ((head?_utf8_iff (by decide) cs).mp hhead)
    · exact hclose (toUInt8_inj_of_short hc (by decide) h)
        ((head?_utf8_iff (by decide) cs).mp hhead)
  · exact commentByteLength?_long (fun b => le_of_mem_utf8EncodeChar (Nat.lt_of_not_le hc)) _ _ _

/-- Counting bytes stops at the first pair that leaves no level open, too. -/
theorem commentByteLength?_eq_some_iff (cs : List Char) (depth taken more : Nat) :
    commentByteLength? (utf8 cs) depth taken = some more ↔
      ClosesAt (Text.byteLength ·.text) (depth + 1) (commentPieces cs) taken more := by
  induction cs using commentPieces_induction generalizing depth taken with
  | nil =>
    have hopen : ¬ ClosesAt (Text.byteLength ·.text) (depth + 1) [] taken more :=
      not_closesAt_nil (by omega)
    rw [utf8, List.flatMap_nil, commentByteLength?, commentPieces]
    exact iff_of_false (fun h => by cases h) hopen
  | opening cs ih =>
    have hbytes : utf8 ('#' :: '|' :: cs) = '#'.toUInt8 :: '|'.toUInt8 :: utf8 cs := rfl
    rw [commentPieces, closesAt_opening, hbytes, commentByteLength?, if_pos ⟨rfl, rfl⟩]
    exact ih (depth + 1) (taken + 2)
  | closing cs ih =>
    have hbytes : utf8 ('|' :: '#' :: cs) = '|'.toUInt8 :: '#'.toUInt8 :: utf8 cs := rfl
    rw [commentPieces, hbytes, commentByteLength?, if_neg fun h => absurd h.1 (by decide),
      if_pos ⟨rfl, rfl⟩]
    cases depth with
    | zero =>
      rw [closesAt_closing_zero, if_pos rfl, Option.some.injEq, eq_comm]
      rfl
    | succ depth =>
      rw [closesAt_closing_succ, if_neg (Nat.succ_ne_zero depth)]
      exact ih depth (taken + 2)
  | char c cs hopen hclose ih =>
    rw [commentByteLength?_char hopen hclose, ih, commentPieces_char hopen hclose, closesAt_char]
    rfl

/-! ## Comments that the scanner comes to -/

/-- Scanning the text comes to a place outside of lexemes and comments: it has read `before`, holds
the tokens `acc`, last one first, and goes on with `rest`. -/
inductive Reaches (text : List Char) : List Char → List Char → List Token → Prop
  | start : Reaches text [] text []
  | trivia {before w rest : List Char} {c : Char} {acc : List Token} :
      Reaches text before (c :: (w ++ rest)) acc → front c (w ++ rest) = .trivia w.length →
      Reaches text (before ++ c :: w) rest acc
  | lexeme {before w rest : List Char} {c : Char} {kind : Token.Kind} {acc : List Token} :
      Reaches text before (c :: (w ++ rest)) acc → front c (w ++ rest) = .lexeme kind w.length →
      Reaches text (before ++ c :: w) rest (placed kind before (c :: w) :: acc)

/-- The scan of a text is what becomes of the rest from any place that it comes to. -/
theorem Reaches.scan_eq {source : String} {before rest : List Char} {acc : List Token}
    (h : Reaches source.toList before rest acc) :
    scan source = scanFrom (Cursor.start.advance before) rest acc := by
  induction h with
  | start => rfl
  | trivia _ hfront ih => rw [ih, scanFrom_trivia hfront]
  | lexeme _ hfront ih => rw [ih, scanFrom_lexeme hfront]

theorem Reaches.scan_of_fault {source : String} {before rest : List Char} {c : Char}
    {acc : List Token} {f : Fault} (h : Reaches source.toList before (c :: rest) acc)
    (hfront : front c rest = .fault f) : scan source = .error ⟨f, Position.after before⟩ := by
  rw [h.scan_eq, scanFrom_fault hfront]

theorem front_of_no_bar {rest : List Char} (h : rest.head? ≠ some '|') :
    front '#' rest = .fault .malformedBlockComment := by
  show commentFront rest = _
  rw [commentFront]
  rintro cs rfl
  exact h rfl

/-- A comment is taken up to the first pair that leaves no level open. -/
theorem front_of_closes {cs : List Char} {qs rest : List CommentPiece}
    (hpieces : commentPieces cs = qs ++ rest) (hqs : Closes 1 qs) :
    front '#' ('|' :: cs) = .trivia ('|' :: piecesText qs).length := by
  have hlength : commentLength? cs 0 1 = some (1 + (piecesText qs).length) := by
    rw [commentLength?_eq_some_iff]
    exact ⟨qs, rest, hpieces, hqs,
      (foldl_size List.length_nil (fun _ _ => List.length_append) qs 1).symm⟩
  show commentFront ('|' :: cs) = _
  rw [commentFront, hlength, List.length_cons, Nat.add_comm]

/-- The scanner passes over a comment that is closed, and comes to what stands after it. -/
theorem Reaches.pass_comment {text before cs : List Char} {acc : List Token}
    {qs after : List CommentPiece} (h : Reaches text before ('#' :: '|' :: cs) acc)
    (hpieces : commentPieces cs = qs ++ after) (hqs : Closes 1 qs) :
    Reaches text (before ++ '#' :: '|' :: piecesText qs) (piecesText after) acc := by
  have hfront := front_of_closes hpieces hqs
  have htext : cs = piecesText qs ++ piecesText after := by
    rw [← piecesText_append, ← hpieces, piecesText_commentPieces]
  rw [htext] at h hfront
  exact .trivia (w := '|' :: piecesText qs) h hfront

/-- A comment whose end is not found is not closed. -/
theorem front_of_unclosed {cs : List Char} (h : ∀ more, commentLength? cs 0 1 ≠ some more) :
    front '#' ('|' :: cs) = .fault .unterminatedBlockComment := by
  show commentFront ('|' :: cs) = _
  rw [commentFront, Option.eq_none_iff_forall_ne_some.mpr h]

theorem front_of_open {cs : List Char}
    (h : ∀ qs, qs <+: commentPieces cs → depthAfter 1 qs ≠ 0) :
    front '#' ('|' :: cs) = .fault .unterminatedBlockComment := by
  refine front_of_unclosed fun more hmore => ?_
  obtain ⟨qs, rest, hpieces, hqs, -⟩ := (commentLength?_eq_some_iff cs 0 1 more).mp hmore
  exact h qs ⟨rest, hpieces.symm⟩ hqs.1

/-! ## Trees of comments -/

/-- What stands in a comment after its opening pair: its end, or a character that belongs to no
delimiter, or a comment inside, and then what stands after that. -/
inductive CommentTree where
  | close
  | char (c : Char) (hc : c ≠ '#' ∧ c ≠ '|') (more : CommentTree)
  | nested (inner more : CommentTree)

namespace CommentTree

/-- The text after the opening pair, with the pair that closes the comment. -/
def body : CommentTree → List Char
  | close => ['|', '#']
  | char c _ more => c :: more.body
  | nested inner more => '#' :: '|' :: (inner.body ++ more.body)

/-- The text of the comment. -/
def text (t : CommentTree) : List Char :=
  '#' :: '|' :: t.body

theorem commentBody (t : CommentTree) : CommentBody t.body := by
  induction t with
  | close => exact .close
  | char c hc more ih => exact .char (fun h => absurd h hc.1) (fun h => absurd h hc.2) ih
  | nested inner more ihInner ihMore => exact .nested ihInner ihMore

end CommentTree

/-- A comment does not end before its end. -/
theorem CommentBody.eq_of_part {body body' : List Char} (h : CommentBody body)
    (h' : CommentBody body') (hpart : body' <+: body) : body' = body := by
  obtain ⟨rest, rfl⟩ := hpart
  have hlength : some (0 + body'.length) = some (0 + (body' ++ rest).length) := by
    calc some (0 + body'.length)
        = commentLength? (body' ++ rest) 0 0 := (commentLength?_append h' rest 0 0).symm
      _ = commentLength? (body' ++ rest ++ []) 0 0 := by rw [List.append_nil]
      _ = some (0 + (body' ++ rest).length) := commentLength?_append h [] 0 0
  simp only [Option.some.injEq, List.length_append] at hlength
  obtain rfl : rest = [] := List.length_eq_zero_iff.mp (by omega)
  rw [List.append_nil]

/-- A comment that is cut off is not closed. -/
theorem front_of_cut {body cs : List Char} (h : CommentBody body) (hpart : cs <+: body)
    (hne : cs ≠ body) : front '#' ('|' :: cs) = .fault .unterminatedBlockComment := by
  refine front_of_unclosed fun more hmore => ?_
  obtain ⟨body', rest, rfl, hbody', -⟩ := exists_body hmore
  obtain rfl := h.eq_of_part hbody' ((List.prefix_append body' rest).trans hpart)
  exact hne (hpart.eq_of_length (Nat.le_antisymm hpart.length_le (by simp)))

/-- Block comments nest exactly. At a number sign that the scanner comes to outside of comments, the
scan fails unless a bar follows. Otherwise the comment is passed over up to the first pair that
leaves no level open, which is the place where counting bytes stops, too: the scan of the text is
the scan that goes on after that pair with the tokens found so far. If there is no such pair, the
scan fails. Both errors stand at the number sign. So a tree of comments is passed over as a whole,
and each part of it from its start on, if it has at least the opening pair, is not closed. -/
theorem comment_nesting {source : String} {before rest : List Char} {acc : List Token}
    (h : Reaches source.toList before ('#' :: rest) acc) :
    (rest.head? ≠ some '|' →
        scan source = .error ⟨.malformedBlockComment, Position.after before⟩) ∧
      (∀ cs, rest = '|' :: cs →
        (∀ qs after, commentPieces cs = qs ++ after → Closes 1 qs →
          Reaches source.toList (before ++ '#' :: '|' :: piecesText qs) (piecesText after) acc ∧
            scan source =
              scanFrom (Cursor.start.advance (before ++ '#' :: '|' :: piecesText qs))
                (piecesText after) acc ∧
            commentByteLength? (utf8 cs) 0 1 = some (1 + Text.byteLength (piecesText qs))) ∧
        ((∀ qs, qs <+: commentPieces cs → depthAfter 1 qs ≠ 0) →
          scan source = .error ⟨.unterminatedBlockComment, Position.after before⟩ ∧
            commentByteLength? (utf8 cs) 0 1 = none)) ∧
      ∀ t : CommentTree,
        (∀ after, '#' :: rest = t.text ++ after →
          Reaches source.toList (before ++ t.text) after acc ∧
            scan source = scanFrom (Cursor.start.advance (before ++ t.text)) after acc) ∧
        ∀ u, u <+: t.text → u ≠ t.text → 2 ≤ u.length → '#' :: rest = u →
          scan source = .error ⟨.unterminatedBlockComment, Position.after before⟩ := by
  refine ⟨fun hbar => h.scan_of_fault (front_of_no_bar hbar), ?_, fun t => ⟨?_, ?_⟩⟩
  · rintro cs rfl
    refine ⟨fun qs after hpieces hqs => ?_, fun hopen => ⟨?_, ?_⟩⟩
    · have hpassed := h.pass_comment hpieces hqs
      refine ⟨hpassed, hpassed.scan_eq, ?_⟩
      rw [commentByteLength?_eq_some_iff]
      exact ⟨qs, after, hpieces, hqs,
        (foldl_size Text.byteLength_nil Text.byteLength_append qs 1).symm⟩
    · exact h.scan_of_fault (front_of_open hopen)
    · rw [Option.eq_none_iff_forall_ne_some]
      intro more hmore
      obtain ⟨qs, after, hpieces, hqs, -⟩ := (commentByteLength?_eq_some_iff cs 0 1 more).mp hmore
      exact hopen qs ⟨after, hpieces.symm⟩ hqs.1
  · intro after hafter
    rw [hafter] at h
    have hpassed := h.trivia (w := '|' :: t.body)
      (front_of_triviaPiece (.blockComment t.commentBody))
    exact ⟨hpassed, hpassed.scan_eq⟩
  · rintro u hpart hne hlength rfl
    -- a part with two characters has the opening pair, and a part of the body after it
    match rest, hpart, hlength with
    | [], _, hlength => exact absurd hlength (by decide)
    | c :: cs, hpart, _ =>
      simp only [CommentTree.text, List.cons_prefix_cons] at hpart
      obtain ⟨-, rfl, hpart⟩ := hpart
      refine h.scan_of_fault (front_of_cut t.commentBody hpart ?_)
      rintro rfl
      exact hne rfl

/-- A name, a comment with a comment and with characters of several bytes in it, and a closing pair
that has no comment to close. -/
def commentedText : String := "x#|é#|∂|#|#|#"

/-- What stands after the opening pair of the comment in that text. -/
def commentedTail : List Char := ['é', '#', '|', '∂', '|', '#', '|', '#', '|', '#']

/-- The comment of that text ends before the bar that follows it, at its twelfth byte. -/
theorem commentedText_nesting :
    Reaches commentedText.toList ['x'] ('#' :: '|' :: commentedTail)
        [placed (.identifier "x") [] ['x']] ∧
      Closes 1 [.char 'é', .opening, .char '∂', .closing, .closing] ∧
      Reaches commentedText.toList "x#|é#|∂|#|#".toList ['|', '#']
        [placed (.identifier "x") [] ['x']] ∧
      scan commentedText = scanFrom (Cursor.start.advance "x#|é#|∂|#|#".toList) ['|', '#']
        [placed (.identifier "x") [] ['x']] ∧
      commentByteLength? (utf8 commentedTail) 0 1 = some 12 := by
  have hreach : Reaches commentedText.toList ['x'] ('#' :: '|' :: commentedTail)
      [placed (.identifier "x") [] ['x']] :=
    @Reaches.lexeme _ [] [] _ 'x' (.identifier "x") [] .start rfl
  have hcloses : Closes 1 [.char 'é', .opening, .char '∂', .closing, .closing] := by
    simp [closes_cons, closes_nil, CommentPiece.levels]
  have hcomment := ((comment_nesting hreach).2.1 commentedTail rfl).1
    [.char 'é', .opening, .char '∂', .closing, .closing] [.closing] rfl hcloses
  exact ⟨hreach, hcloses, hcomment⟩

end Token

end Scriptlet
