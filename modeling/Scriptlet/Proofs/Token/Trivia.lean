import Scriptlet.Proofs.Token.Lexeme

/-! # What stands between tokens

Blanks, line breaks, line comments and block comments. A block comment is written as a tree: its
body consists of single characters and of whole comments, up to the pair that closes it. Counting
levels from left to right finds the end of the body and nothing else (`commentLength?_append` and
`exists_body`).
-/

namespace Scriptlet.Token

/-- What follows the opening pair of a block comment, up to and with the pair that closes it. A
single character makes no pair with the character after it. -/
inductive CommentBody : List Char → Prop
  | close : CommentBody ['|', '#']
  | char {c : Char} {body : List Char} : (c = '#' → body.head? ≠ some '|') →
      (c = '|' → body.head? ≠ some '#') → CommentBody body → CommentBody (c :: body)
  | nested {inner body : List Char} : CommentBody inner → CommentBody body →
      CommentBody ('#' :: '|' :: (inner ++ body))

/-- A piece of trivia at the front of a text, and the text after it. A line comment goes on to the
end of its line. -/
inductive TriviaPiece : List Char → List Char → Prop
  | blank {c : Char} {rest : List Char} : isLineBlank c = true → TriviaPiece [c] rest
  | lineBreak {rest : List Char} : TriviaPiece ['\n'] rest
  | lineComment {cs rest : List Char} : '\n' ∉ cs → (∀ c ∈ rest.head?, c = '\n') →
      TriviaPiece ('@' :: cs) rest
  | blockComment {body rest : List Char} : CommentBody body → TriviaPiece ('#' :: '|' :: body) rest

/-- Any number of pieces of trivia, and the text after them. -/
inductive Trivia : List Char → List Char → Prop
  | none {rest : List Char} : Trivia [] rest
  | cons {piece gap rest : List Char} : TriviaPiece piece (gap ++ rest) → Trivia gap rest →
      Trivia (piece ++ gap) rest

/-! ## Block comments -/

/-- A character that makes no pair with the next one is passed over. -/
theorem commentLength?_char {c : Char} {cs : List Char} (hopen : c = '#' → cs.head? ≠ some '|')
    (hclose : c = '|' → cs.head? ≠ some '#') (depth taken : Nat) :
    commentLength? (c :: cs) depth taken = commentLength? cs depth (taken + 1) := by
  rw [commentLength?]
  · rintro _ rfl rfl
    exact hopen rfl rfl
  · rintro _ - rfl rfl
    exact hclose rfl rfl
  · rintro _ _ - rfl rfl
    exact hclose rfl rfl

theorem CommentBody.head?_append {body : List Char} (h : CommentBody body) (rest : List Char) :
    (body ++ rest).head? = body.head? := by
  cases h <;> rfl

/-- What the end of a comment's body leads to: the end of the whole comment, or the rest of the
comment around it. -/
def closeLevel? (rest : List Char) : Nat → Nat → Option Nat
  | 0, taken => some taken
  | depth + 1, taken => commentLength? rest depth taken

theorem commentLength?_close (rest : List Char) (depth taken : Nat) :
    commentLength? ('|' :: '#' :: rest) depth taken = closeLevel? rest depth (taken + 2) := by
  cases depth <;> rfl

/-- The body of a comment closes the innermost level. -/
theorem commentLength?_append {body : List Char} (h : CommentBody body) (rest : List Char)
    (depth taken : Nat) :
    commentLength? (body ++ rest) depth taken = closeLevel? rest depth (taken + body.length) := by
  induction h generalizing rest depth taken with
  | close => exact commentLength?_close rest depth taken
  | @char c body hopen hclose hbody ih =>
    rw [← hbody.head?_append rest] at hopen hclose
    rw [List.cons_append, commentLength?_char hopen hclose, ih]
    congr 1
    simp only [List.length_cons]
    omega
  | @nested inner body _ _ ihInner ihBody =>
    have hstep : commentLength? ('#' :: '|' :: (inner ++ body) ++ rest) depth taken =
        commentLength? (inner ++ (body ++ rest)) (depth + 1) (taken + 2) := by
      rw [← List.append_assoc]
      rfl
    rw [hstep, ihInner, closeLevel?, ihBody]
    congr 1
    simp only [List.length_cons, List.length_append]
    omega

/-- If the end of a comment is found, the text starts with the body of a comment, and what follows
that closes the levels around it. -/
theorem exists_body {cs : List Char} {depth taken more : Nat}
    (h : commentLength? cs depth taken = some more) :
    ∃ body rest, cs = body ++ rest ∧ CommentBody body ∧
      closeLevel? rest depth (taken + body.length) = some more := by
  -- a comment inside is followed by the rest of the body, which is shorter but no tail of the match
  induction hn : cs.length using Nat.strong_induction_on generalizing cs depth taken with
  | _ n ih =>
    subst hn
    match cs with
    | [] => cases h
    | c :: cs =>
      by_cases hopen : c = '#' ∧ cs.head? = some '|'
      · obtain ⟨rfl, hhead⟩ := hopen
        obtain ⟨cs, rfl⟩ := List.head?_eq_some_iff.mp hhead
        have hopened : commentLength? cs (depth + 1) (taken + 2) = some more := h
        obtain ⟨inner, mid, rfl, hinner, hmid⟩ :=
          ih cs.length (by simp only [List.length_cons]; omega) hopened rfl
        obtain ⟨body, rest, rfl, hbody, hrest⟩ :=
          ih mid.length (by simp only [List.length_cons, List.length_append]; omega) hmid rfl
        refine ⟨'#' :: '|' :: (inner ++ body), rest, by simp, .nested hinner hbody, ?_⟩
        rw [← hrest]
        congr 1
        simp only [List.length_cons, List.length_append]
        omega
      · by_cases hclose : c = '|' ∧ cs.head? = some '#'
        · obtain ⟨rfl, hhead⟩ := hclose
          obtain ⟨cs, rfl⟩ := List.head?_eq_some_iff.mp hhead
          rw [commentLength?_close] at h
          exact ⟨['|', '#'], cs, rfl, .close, h⟩
        · have hopen' : c = '#' → cs.head? ≠ some '|' := fun hc hhead => hopen ⟨hc, hhead⟩
          have hclose' : c = '|' → cs.head? ≠ some '#' := fun hc hhead => hclose ⟨hc, hhead⟩
          rw [commentLength?_char hopen' hclose'] at h
          obtain ⟨body, rest, rfl, hbody, hrest⟩ := ih cs.length (Nat.lt_succ_self _) h rfl
          rw [hbody.head?_append] at hopen' hclose'
          refine ⟨c :: body, rest, rfl, .char hopen' hclose' hbody, ?_⟩
          rw [← hrest]
          congr 1
          simp only [List.length_cons]
          omega

/-! ## The front of a text -/

/-- A block comment is taken whole. -/
theorem commentFront_trivia {cs : List Char} {more : Nat} (h : commentFront cs = .trivia more) :
    ∃ body rest, cs = '|' :: (body ++ rest) ∧ more = body.length + 1 ∧ CommentBody body := by
  unfold commentFront at h
  split at h
  · split at h
    · next hlength =>
      cases h
      obtain ⟨body, rest, rfl, hbody, hend⟩ := exists_body hlength
      cases hend
      exact ⟨body, rest, rfl, Nat.add_comm _ _, hbody⟩
    · cases h
  · cases h

/-- What `front` takes as trivia starts as trivia does, and so does a comment with a fault. -/
theorem startsTrivia_of_front {c : Char} {cs : List Char}
    (hlexeme : ∀ kind more, front c cs ≠ .lexeme kind more)
    (hillegal : front c cs ≠ .fault (.illegalCharacter c)) : startsTrivia c = true := by
  rw [← Bool.not_eq_false]
  intro hc
  rcases front_of_not_trivia hc cs with ⟨kind, more, h⟩ | ⟨h, -⟩
  · exact hlexeme kind more h
  · exact hillegal h

/-- What `front` takes as trivia is a piece of it. -/
theorem front_trivia {c : Char} {cs : List Char} {more : Nat} (h : front c cs = .trivia more) :
    ∃ w rest, cs = w ++ rest ∧ w.length = more ∧ TriviaPiece (c :: w) rest := by
  have hc : startsTrivia c = true :=
    startsTrivia_of_front (by rw [h]; exact nofun) (by rw [h]; exact nofun)
  rcases startsTrivia_iff.mp hc with rfl | rfl | rfl | rfl | rfl | rfl | rfl
  case inr.inr.inr.inr.inl =>
    cases h
    exact ⟨[], cs, rfl, rfl, .lineBreak⟩
  case inr.inr.inr.inr.inr.inl =>
    cases h
    refine ⟨_, cs.dropWhile (· != '\n'), List.takeWhile_append_dropWhile.symm, rfl, ?_⟩
    refine .lineComment (fun hmem => ?_) fun d hd => ?_
    · simpa using List.mem_takeWhile_imp hmem
    · have hstop := List.head?_dropWhile_not (· != '\n') cs
      rw [(hd : _ = _)] at hstop
      simpa using hstop
  case inr.inr.inr.inr.inr.inr =>
    obtain ⟨body, rest, rfl, rfl, hbody⟩ := commentFront_trivia h
    exact ⟨'|' :: body, rest, rfl, rfl, .blockComment hbody⟩
  all_goals
    cases h
    exact ⟨[], cs, rfl, rfl, .blank rfl⟩

/-- A piece of trivia at the front of a text is taken. -/
theorem front_of_triviaPiece {c : Char} {w rest : List Char} (h : TriviaPiece (c :: w) rest) :
    front c (w ++ rest) = .trivia w.length := by
  cases h with
  | blank hc => simp [front, hc]
  | lineBreak => rfl
  | lineComment hcs hrest =>
    have htake : (w ++ rest).takeWhile (· != '\n') = w := by
      have hw : ∀ d ∈ w, (d != '\n') = true := by
        rintro d hd
        rw [bne_iff_ne]
        rintro rfl
        exact hcs hd
      cases rest with
      | nil => rw [List.append_nil, List.takeWhile_eq_self_iff.mpr hw]
      | cons d rest =>
        have hd : d = '\n' := hrest d rfl
        exact takeWhile_stop hw (by rw [hd]; rfl) rest
    show Front.trivia ((w ++ rest).takeWhile (· != '\n')).length = _
    rw [htake]
  | @blockComment body _ hbody =>
    have hlength := commentLength?_append hbody rest 0 1
    show commentFront ('|' :: (body ++ rest)) = _
    rw [commentFront, hlength, closeLevel?, List.length_cons, Nat.add_comm]

/-- A comment with a fault is a number sign without a bar after it, or it opens and has no body. -/
theorem front_commentFault {c : Char} {cs : List Char} {f : Fault}
    (h : front c cs = .fault f) (hf : ∀ d, f ≠ .illegalCharacter d) :
    c = '#' ∧ ((f = .malformedBlockComment ∧ cs.head? ≠ some '|') ∨
      f = .unterminatedBlockComment ∧
        ∃ rest, cs = '|' :: rest ∧ ∀ body, CommentBody body → ¬ body <+: rest) := by
  have hc : startsTrivia c = true :=
    startsTrivia_of_front (by rw [h]; exact nofun) (by rw [h]; intro heq; cases heq; exact hf c rfl)
  rcases startsTrivia_iff.mp hc with rfl | rfl | rfl | rfl | rfl | rfl | rfl
  case inr.inr.inr.inr.inr.inr =>
    refine ⟨rfl, ?_⟩
    have hcomment : commentFront cs = .fault f := h
    unfold commentFront at hcomment
    split at hcomment
    · next rest =>
      split at hcomment
      · cases hcomment
      · next hnone =>
        cases hcomment
        refine Or.inr ⟨rfl, rest, rfl, fun body hbody hprefix => ?_⟩
        obtain ⟨more, rfl⟩ := hprefix
        rw [commentLength?_append hbody] at hnone
        cases hnone
    · next hbar =>
      cases hcomment
      refine Or.inl ⟨rfl, fun hhead => ?_⟩
      obtain ⟨rest, rfl⟩ := List.head?_eq_some_iff.mp hhead
      exact hbar rest rfl
  all_goals cases h

/-! ## Where reading stops -/

theorem TriviaPiece.head {c : Char} {w rest : List Char} (h : TriviaPiece (c :: w) rest) :
    startsTrivia c = true := by
  cases h with
  | blank hc => simp [startsTrivia, hc]
  | lineBreak => rfl
  | lineComment => rfl
  | blockComment => rfl

theorem TriviaPiece.exists_cons {piece rest : List Char} (h : TriviaPiece piece rest) :
    ∃ c w, piece = c :: w := by
  cases h <;> exact ⟨_, _, rfl⟩

theorem Trivia.head {gap rest : List Char} (h : Trivia gap rest) :
    ∀ c ∈ gap.head?, startsTrivia c = true := by
  cases h with
  | none => exact nofun
  | cons hpiece _ =>
    obtain ⟨c, w, rfl⟩ := hpiece.exists_cons
    rintro _ ⟨⟩
    exact hpiece.head

/-- Why neither a lexeme nor a piece of trivia stands at the front of the text `c :: rest`. -/
inductive Stuck : Fault → Char → List Char → Prop
  | halfAnd {rest : List Char} : rest.head? ≠ some '&' → Stuck (.illegalCharacter '&') '&' rest
  | halfOr {rest : List Char} : rest.head? ≠ some '|' → Stuck (.illegalCharacter '|') '|' rest
  | foreign {c : Char} {rest : List Char} : (∀ w kind, ¬ Lexeme (c :: w) kind) →
      (∀ w after, ¬ TriviaPiece (c :: w) after) → Stuck (.illegalCharacter c) c rest
  | unopened {rest : List Char} : rest.head? ≠ some '|' → Stuck .malformedBlockComment '#' rest
  | unclosed {rest : List Char} : (∀ body, CommentBody body → ¬ body <+: rest) →
      Stuck .unterminatedBlockComment '#' ('|' :: rest)

theorem front_fault {c : Char} {cs : List Char} {f : Fault} (h : front c cs = .fault f) :
    Stuck f c cs := by
  have hcomment (hf : ∀ d, f ≠ .illegalCharacter d) : Stuck f c cs := by
    obtain ⟨rfl, ⟨rfl, hbar⟩ | ⟨rfl, rest, rfl, hbody⟩⟩ := front_commentFault h hf
    · exact .unopened hbar
    · exact .unclosed hbody
  cases f with
  | illegalCharacter d =>
    obtain ⟨rfl, ⟨rfl, hnext⟩ | ⟨rfl, hnext⟩ | ⟨htrivia, hlexeme⟩⟩ := front_illegalCharacter h
    · exact .halfAnd hnext
    · exact .halfOr hnext
    · refine .foreign hlexeme fun w after hpiece => ?_
      rw [hpiece.head] at htrivia
      cases htrivia
  | malformedBlockComment => exact hcomment nofun
  | unterminatedBlockComment => exact hcomment nofun

end Scriptlet.Token
