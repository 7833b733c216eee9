import Mathlib.Data.List.TakeWhile
import Scriptlet.Token.Front

/-! # The token language

`Lexeme` lists the texts of tokens with their kinds: numbers, words and symbols. The first character
of a lexeme decides which of the three it is, and none of them starts as trivia does. Where lexemes
start a text, `front` takes the longest of them (`front_lexeme`), and a lexeme alone is taken whole
(`front_of_lexeme`).
-/

namespace Scriptlet.Token

/-- One or more digits. -/
def Digits (ds : List Char) : Prop :=
  ds ≠ [] ∧ ∀ d ∈ ds, d.isDigit = true

/-- The texts of numbers, and the numbers that they denote. -/
inductive Numeral : List Char → Float → Prop
  | whole {ds : List Char} : Digits ds → Numeral ds (Number.ofDecimal (digitsValue ds) 0)
  | fraction {ds fs : List Char} : Digits ds → Digits fs →
      Numeral (ds ++ '.' :: fs) (Number.ofDecimal (digitsValue (ds ++ fs)) fs.length)

/-- A letter or an underscore, and then letters, digits and underscores. -/
def Word : List Char → Prop
  | [] => False
  | c :: cs => isWordStart c = true ∧ ∀ d ∈ cs, isWordPart d = true

instance (w : List Char) : Decidable (Word w) :=
  match w with
  | [] => inferInstanceAs (Decidable False)
  | _ :: cs =>
    -- the characters of the word are tried, and not all characters there are
    have := List.decidableBAll (fun d => isWordPart d = true) cs
    instDecidableAnd

/-- The texts of tokens with their kinds. A word is a keyword exactly if all of it is one. -/
inductive Lexeme : List Char → Token.Kind → Prop
  | number {w : List Char} {x : Float} : Numeral w x → Lexeme w (.number x)
  | keyword (k : Keyword) : Lexeme k.text.toList (.keyword k)
  | identifier {w : List Char} : Word w → (∀ k : Keyword, k.text.toList ≠ w) →
      Lexeme w (.identifier (String.ofList w))
  | symbol (s : Symbol) : Lexeme s.text.toList (.symbol s)

/-- A lexeme at the front of a text such that no longer one stands there. -/
def Longest (w rest : List Char) (kind : Token.Kind) : Prop :=
  Lexeme w kind ∧ ∀ w' kind', Lexeme w' kind' → w' <+: w ++ rest → w'.length ≤ w.length

/-! ## Prefixes of one class of characters -/

theorem length_le_takeWhile {p : Char → Bool} {u cs : List Char} (hu : ∀ d ∈ u, p d = true)
    (h : u <+: cs) : u.length ≤ (cs.takeWhile p).length := by
  obtain ⟨v, rfl⟩ := h
  rw [List.takeWhile_append_of_pos hu, List.length_append]
  exact Nat.le_add_right _ _

theorem takeWhile_stop {p : Char → Bool} {u : List Char} (hu : ∀ d ∈ u, p d = true) {c : Char}
    (hc : p c = false) (rest : List Char) : (u ++ c :: rest).takeWhile p = u := by
  rw [List.takeWhile_append_of_pos hu, List.takeWhile_cons_of_neg (by rw [hc]; exact nofun),
    List.append_nil]

theorem dropWhile_stop {p : Char → Bool} {u : List Char} (hu : ∀ d ∈ u, p d = true) {c : Char}
    (hc : p c = false) (rest : List Char) : (u ++ c :: rest).dropWhile p = c :: rest := by
  rw [List.dropWhile_append_of_pos hu, List.dropWhile_cons_of_neg (by rw [hc]; exact nofun)]

/-! ## Keywords and words -/

theorem ofText?_eq_some_iff {s : String} {k : Keyword} :
    Keyword.ofText? s = some k ↔ k.text = s := by
  constructor
  · intro h
    exact eq_of_beq (List.find?_some (p := fun k : Keyword => k.text == s) h)
  · rintro rfl
    cases k <;> decide

theorem Keyword.word (k : Keyword) : Word k.text.toList := by
  cases k <;> decide

/-- Every word is a lexeme, of the kind that the word has. -/
theorem Word.lexeme {w : List Char} (h : Word w) : Lexeme w (wordKind (String.ofList w)) := by
  rw [wordKind]
  cases hk : Keyword.ofText? (String.ofList w) with
  | some k =>
    have htext : k.text.toList = w := by
      rw [ofText?_eq_some_iff.mp hk, String.toList_ofList]
    have hlexeme := Lexeme.keyword k
    rw [htext] at hlexeme
    exact hlexeme
  | none =>
    refine .identifier h fun k hw => ?_
    have hsome : Keyword.ofText? (String.ofList w) = some k := by
      rw [ofText?_eq_some_iff, ← hw, String.ofList_toList]
    rw [hk] at hsome
    cases hsome

/-- The three sorts of lexemes. -/
theorem Lexeme.sort {w : List Char} {kind : Token.Kind} (h : Lexeme w kind) :
    (∃ x, Numeral w x ∧ kind = .number x) ∨ (Word w ∧ kind = wordKind (String.ofList w)) ∨
      ∃ s : Symbol, s.text.toList = w ∧ kind = .symbol s := by
  cases h with
  | number hw => exact Or.inl ⟨_, hw, rfl⟩
  | keyword k =>
    refine Or.inr (Or.inl ⟨Keyword.word k, ?_⟩)
    rw [wordKind, String.ofList_toList, ofText?_eq_some_iff.mpr rfl]
  | identifier hw hk =>
    refine Or.inr (Or.inl ⟨hw, ?_⟩)
    have hnone : Keyword.ofText? (String.ofList w) = none := by
      rw [Option.eq_none_iff_forall_ne_some]
      intro k hsome
      refine hk k ?_
      rw [ofText?_eq_some_iff.mp hsome, String.toList_ofList]
    rw [wordKind, hnone]
  | symbol s => exact Or.inr (Or.inr ⟨s, rfl, rfl⟩)

/-! ## Symbols -/

theorem pairSymbol?_eq_some_iff {a b : Char} {s : Symbol} :
    pairSymbol? a b = some s ↔ s.text.toList = [a, b] := by
  constructor
  · intro h
    unfold pairSymbol? at h
    split at h <;> cases h <;> decide
  · intro h
    cases s <;> cases h <;> rfl

theorem singleSymbol?_eq_some_iff {a : Char} {s : Symbol} :
    singleSymbol? a = some s ↔ s.text.toList = [a] := by
  constructor
  · intro h
    unfold singleSymbol? at h
    split at h <;> cases h <;> decide
  · intro h
    cases s <;> cases h <;> rfl

/-- Symbols have one character or two. -/
theorem Symbol.text_cases (s : Symbol) :
    (∃ a, s.text.toList = [a]) ∨ ∃ a b, s.text.toList = [a, b] := by
  cases s <;> first | exact Or.inl ⟨_, rfl⟩ | exact Or.inr ⟨_, _, rfl⟩

/-! ## The first character of a lexeme -/

/-- The characters that trivia starts with. -/
def startsTrivia (c : Char) : Bool :=
  isLineBlank c || c == '\n' || c == '@' || c == '#'

theorem startsTrivia_iff {c : Char} : startsTrivia c = true ↔
    c = ' ' ∨ c = '\t' ∨ c = '\r' ∨ c = '\x0c' ∨ c = '\n' ∨ c = '@' ∨ c = '#' := by
  simp [startsTrivia, isLineBlank, or_assoc]

/-- What is not trivia is a number, a word or a symbol by its first character. -/
theorem front_of_startsTrivia {c : Char} (h : startsTrivia c = false) (cs : List Char) :
    front c cs = if c.isDigit then numberFront c cs
      else if isWordStart c then wordFront c cs else symbolFront c cs := by
  simp only [startsTrivia, Bool.or_eq_false_iff] at h
  obtain ⟨⟨⟨hblank, hbreak⟩, hline⟩, hblock⟩ := h
  simp only [front, hblank, hbreak, hline, hblock, Bool.or_self, Bool.false_eq_true, if_false]

theorem startsTrivia_digit {c : Char} (h : c.isDigit = true) : startsTrivia c = false := by
  rw [Bool.eq_false_iff, Ne, startsTrivia_iff]
  rintro (rfl | rfl | rfl | rfl | rfl | rfl | rfl) <;> cases h

theorem startsTrivia_wordStart {c : Char} (h : isWordStart c = true) : startsTrivia c = false := by
  rw [Bool.eq_false_iff, Ne, startsTrivia_iff]
  rintro (rfl | rfl | rfl | rfl | rfl | rfl | rfl) <;> cases h

/-- Digits come before the letters and the underscore in the order of characters. -/
theorem isWordStart_digit {c : Char} (h : c.isDigit = true) : isWordStart c = false := by
  have hdigit : c.val ≤ '9'.val := of_decide_eq_true ((Bool.and_eq_true _ _).mp h).2
  have hupper : ¬ c.val ≥ 'A'.val := fun hA => absurd (UInt32.le_trans hA hdigit) (by decide)
  have hlower : ¬ c.val ≥ 'a'.val := fun ha => absurd (UInt32.le_trans ha hdigit) (by decide)
  have hunderscore : c ≠ '_' := by
    rintro rfl
    cases h
  show ((decide (c.val ≥ 'A'.val ∧ c.val ≤ 'Z'.val) ||
    (decide (c.val ≥ 'a'.val) && decide (c.val ≤ 'z'.val))) || c == '_') = false
  rw [decide_eq_false fun hAZ => hupper hAZ.1, decide_eq_false hlower,
    beq_eq_false_iff_ne.mpr hunderscore]
  rfl

/-- The first character of a symbol starts nothing else. -/
theorem Symbol.head {s : Symbol} {c : Char} {w : List Char} (h : s.text.toList = c :: w) :
    startsTrivia c = false ∧ c.isDigit = false ∧ isWordStart c = false := by
  cases s <;> cases h <;> decide

/-- The first character of a symbol is one too, except for those of conjunction and disjunction. -/
theorem Symbol.head_single {s : Symbol} {c : Char} {w : List Char} (h : s.text.toList = c :: w) :
    (singleSymbol? c).isSome = true ∨ c = '&' ∨ c = '|' := by
  cases s <;> cases h <;> decide

theorem Numeral.head {c : Char} {w : List Char} {x : Float} (h : Numeral (c :: w) x) :
    c.isDigit = true := by
  generalize hw : c :: w = w' at h
  cases h with
  | whole hds => exact hds.2 c (by simp [← hw])
  | @fraction ds fs hds hfs =>
    obtain ⟨d, ds, rfl⟩ := List.exists_cons_of_ne_nil hds.1
    obtain ⟨rfl, -⟩ := List.cons.inj hw
    exact hds.2 c (List.mem_cons_self ..)

/-- A lexeme that starts with a digit is a number. -/
theorem Lexeme.numeral {c : Char} {w : List Char} {kind : Token.Kind} (h : Lexeme (c :: w) kind)
    (hc : c.isDigit = true) : ∃ x, Numeral (c :: w) x ∧ kind = .number x := by
  rcases h.sort with hnumber | ⟨hword, -⟩ | ⟨s, hs, -⟩
  · exact hnumber
  · have hstart := hword.1
    rw [isWordStart_digit hc] at hstart
    cases hstart
  · have hdigit := (Symbol.head hs).2.1
    rw [hc] at hdigit
    cases hdigit

/-- A lexeme that starts as a word does is one. -/
theorem Lexeme.word {c : Char} {w : List Char} {kind : Token.Kind} (h : Lexeme (c :: w) kind)
    (hc : isWordStart c = true) : Word (c :: w) ∧ kind = wordKind (String.ofList (c :: w)) := by
  rcases h.sort with ⟨x, hx, -⟩ | hword | ⟨s, hs, -⟩
  · rw [isWordStart_digit hx.head] at hc
    cases hc
  · exact hword
  · have hstart := (Symbol.head hs).2.2
    rw [hc] at hstart
    cases hstart

/-- A lexeme that starts with neither a digit nor a letter is a symbol. -/
theorem Lexeme.isSymbol {c : Char} {w : List Char} {kind : Token.Kind} (h : Lexeme (c :: w) kind)
    (hdigit : c.isDigit = false) (hword : isWordStart c = false) :
    ∃ s : Symbol, s.text.toList = c :: w ∧ kind = .symbol s := by
  rcases h.sort with ⟨x, hx, -⟩ | ⟨hw, -⟩ | hs
  · rw [hx.head] at hdigit
    cases hdigit
  · rw [hw.1] at hword
    cases hword
  · exact hs

theorem Lexeme.exists_cons {w : List Char} {kind : Token.Kind} (h : Lexeme w kind) :
    ∃ c cs, w = c :: cs := by
  cases h with
  | number hw =>
    cases hw with
    | whole hds => exact List.exists_cons_of_ne_nil hds.1
    | fraction => exact List.exists_cons_of_ne_nil (by simp)
  | keyword k => cases k <;> exact ⟨_, _, rfl⟩
  | identifier hw _ =>
    cases w with
    | nil => exact hw.elim
    | cons c cs => exact ⟨c, cs, rfl⟩
  | symbol s => cases s <;> exact ⟨_, _, rfl⟩

/-- No lexeme starts as trivia does. -/
theorem Lexeme.head_not_trivia {c : Char} {w : List Char} {kind : Token.Kind}
    (h : Lexeme (c :: w) kind) : startsTrivia c = false := by
  rcases h.sort with ⟨x, hx, -⟩ | ⟨hw, -⟩ | ⟨s, hs, -⟩
  · exact startsTrivia_digit hx.head
  · exact startsTrivia_wordStart hw.1
  · exact (Symbol.head hs).1

/-- No lexeme has a character in it that trivia starts with. -/
theorem Lexeme.startsTrivia_of_mem {w : List Char} {kind : Token.Kind} (h : Lexeme w kind) :
    ∀ c ∈ w, startsTrivia c = false := by
  have hdigits {ds : List Char} (hds : Digits ds) : ∀ c ∈ ds, startsTrivia c = false :=
    fun c hc => startsTrivia_digit (hds.2 c hc)
  rcases h.sort with ⟨x, hx, -⟩ | ⟨hword, -⟩ | ⟨s, rfl, -⟩
  · cases hx with
    | whole hds => exact hdigits hds
    | fraction hds hfs =>
      intro c hc
      rcases List.mem_append.mp hc with hwhole | hpoint
      · exact hdigits hds c hwhole
      · rcases List.mem_cons.mp hpoint with rfl | hfraction
        · rfl
        · exact hdigits hfs c hfraction
  · obtain ⟨c, w, rfl⟩ := h.exists_cons
    intro d hd
    rcases List.mem_cons.mp hd with rfl | hd
    · exact startsTrivia_wordStart hword.1
    · have hpart := hword.2 d hd
      rw [Bool.eq_false_iff, Ne, startsTrivia_iff]
      rintro (rfl | rfl | rfl | rfl | rfl | rfl | rfl) <;> cases hpart
  · have hall : s.text.toList.all (!startsTrivia ·) = true := by cases s <;> decide
    intro c hc
    simpa using List.all_eq_true.mp hall c hc

/-! ## Numbers -/

theorem digits_cons {c : Char} {ds : List Char} (hc : c.isDigit = true)
    (hds : ∀ d ∈ ds, d.isDigit = true) : Digits (c :: ds) := by
  refine ⟨List.cons_ne_nil _ _, fun d hd => ?_⟩
  rcases List.mem_cons.mp hd with rfl | hd
  · exact hc
  · exact hds d hd

theorem digits_takeWhile (cs : List Char) :
    ∀ d ∈ cs.takeWhile Char.isDigit, d.isDigit = true :=
  fun _ => List.mem_takeWhile_imp

/-- Where a text starts with a digit, a number is taken. -/
theorem numberFront_eq_lexeme (c : Char) (cs : List Char) :
    ∃ kind more, numberFront c cs = .lexeme kind more := by
  unfold numberFront
  split
  · split <;> exact ⟨_, _, rfl⟩
  · exact ⟨_, _, rfl⟩

/-- What is taken is the text of a number. -/
theorem numberFront_sound {c : Char} {cs : List Char} {kind : Token.Kind} {more : Nat}
    (hc : c.isDigit = true) (h : numberFront c cs = .lexeme kind more) :
    ∃ w rest x, cs = w ++ rest ∧ w.length = more ∧ Numeral (c :: w) x ∧ kind = .number x := by
  have hwhole := digits_cons hc (digits_takeWhile cs)
  have hsplit : cs = cs.takeWhile Char.isDigit ++ cs.dropWhile Char.isDigit :=
    List.takeWhile_append_dropWhile.symm
  unfold numberFront at h
  split at h
  · next d rest hrest =>
    rw [hrest] at hsplit
    split at h
    · next hd =>
      cases h
      have hfraction := digits_cons hd (digits_takeWhile rest)
      refine ⟨cs.takeWhile Char.isDigit ++ '.' :: d :: rest.takeWhile Char.isDigit,
        rest.dropWhile Char.isDigit, _, ?_, ?_, .fraction hwhole hfraction, rfl⟩
      · simpa using hsplit
      · simp only [List.length_append, List.length_cons]
        omega
    · cases h
      exact ⟨_, _, _, hsplit, rfl, .whole hwhole, rfl⟩
  · cases h
    exact ⟨_, _, _, hsplit, rfl, .whole hwhole, rfl⟩

/-- All the digits that follow a digit are taken. -/
theorem numberFront_digits {w : List Char} (hw : ∀ d ∈ w, d.isDigit = true) (c : Char)
    (rest : List Char) :
    ∃ kind more, numberFront c (w ++ rest) = .lexeme kind more ∧ w.length ≤ more := by
  have htake : (w ++ rest).takeWhile Char.isDigit = w ++ rest.takeWhile Char.isDigit :=
    List.takeWhile_append_of_pos hw
  obtain ⟨kind, more, hfront⟩ := numberFront_eq_lexeme c (w ++ rest)
  refine ⟨kind, more, hfront, ?_⟩
  unfold numberFront at hfront
  simp only [htake, List.length_append] at hfront
  split at hfront
  · split at hfront <;> cases hfront <;> omega
  · cases hfront
    omega

/-- Digits alone are taken as a whole number. -/
theorem numberFront_whole {w : List Char} (hw : ∀ d ∈ w, d.isDigit = true) (c : Char) :
    numberFront c w =
      .lexeme (.number (Number.ofDecimal (digitsValue (c :: w)) 0)) w.length := by
  have htake : w.takeWhile Char.isDigit = w := List.takeWhile_eq_self_iff.mpr hw
  have hdrop : w.dropWhile Char.isDigit = [] := List.dropWhile_eq_nil_iff.mpr hw
  simp only [numberFront, htake, hdrop]

/-- A digit after the point makes a fraction, to which all the digits that follow belong. -/
theorem numberFront_fraction {ds fs : List Char} {f : Char} (hds : ∀ d ∈ ds, d.isDigit = true)
    (hf : f.isDigit = true) (hfs : ∀ d ∈ fs, d.isDigit = true) (c : Char) (rest : List Char) :
    numberFront c (ds ++ '.' :: f :: fs ++ rest) =
      let fraction := f :: (fs ++ rest.takeWhile Char.isDigit)
      .lexeme (.number (Number.ofDecimal (digitsValue (c :: ds ++ fraction)) fraction.length))
        (ds.length + 1 + fraction.length) := by
  have hpoint : ('.' : Char).isDigit = false := rfl
  have htake := takeWhile_stop hds hpoint (f :: (fs ++ rest))
  have hdrop := dropWhile_stop hds hpoint (f :: (fs ++ rest))
  have hrest : (fs ++ rest).takeWhile Char.isDigit = fs ++ rest.takeWhile Char.isDigit :=
    List.takeWhile_append_of_pos hfs
  simp only [List.append_assoc, List.cons_append, numberFront, htake, hdrop, hrest, hf, if_true]

/-- A number at the front of a text is taken, or a longer one; alone it is taken as it is. -/
theorem numberFront_append {c : Char} {w : List Char} {x : Float} (h : Numeral (c :: w) x)
    (rest : List Char) : ∃ kind more, numberFront c (w ++ rest) = .lexeme kind more ∧
      w.length ≤ more ∧ (rest = [] → kind = .number x ∧ more = w.length) := by
  generalize hw : c :: w = w' at h
  cases h with
  | whole hds =>
    subst hw
    have hdigits : ∀ d ∈ w, d.isDigit = true := fun d hd => hds.2 d (List.mem_cons_of_mem c hd)
    obtain ⟨kind, more, hfront, hle⟩ := numberFront_digits hdigits c rest
    refine ⟨kind, more, hfront, hle, ?_⟩
    rintro rfl
    rw [List.append_nil, numberFront_whole hdigits] at hfront
    cases hfront
    exact ⟨rfl, rfl⟩
  | @fraction ds fs hds hfs =>
    obtain ⟨c', ds, rfl⟩ := List.exists_cons_of_ne_nil hds.1
    obtain ⟨f, fs, rfl⟩ := List.exists_cons_of_ne_nil hfs.1
    rw [List.cons_append, List.cons.injEq] at hw
    obtain ⟨rfl, rfl⟩ := hw
    have hdigits : ∀ d ∈ ds, d.isDigit = true := fun d hd => hds.2 d (List.mem_cons_of_mem c hd)
    have hmore : ∀ d ∈ fs, d.isDigit = true := fun d hd => hfs.2 d (List.mem_cons_of_mem f hd)
    have hf : f.isDigit = true := hfs.2 f (List.mem_cons_self ..)
    refine ⟨_, _, numberFront_fraction hdigits hf hmore c rest, ?_, ?_⟩
    · simp only [List.length_append, List.length_cons]
      omega
    · rintro rfl
      simp only [List.takeWhile_nil, List.append_nil, List.length_append, List.length_cons,
        true_and]
      omega

/-! ## The longest lexeme -/

/-- What starts as trivia does is trivia, or a block comment with a fault. -/
theorem front_of_trivia_start {c : Char} (h : startsTrivia c = true) (cs : List Char) :
    (∃ more, front c cs = .trivia more) ∨ front c cs = .fault .malformedBlockComment ∨
      front c cs = .fault .unterminatedBlockComment := by
  rcases startsTrivia_iff.mp h with rfl | rfl | rfl | rfl | rfl | rfl | rfl
  case inr.inr.inr.inr.inr.inr =>
    have hfront : front '#' cs = commentFront cs := rfl
    rw [hfront]
    unfold commentFront
    split
    · split
      · exact Or.inl ⟨_, rfl⟩
      · exact Or.inr (Or.inr rfl)
    · exact Or.inr (Or.inl rfl)
  all_goals exact Or.inl ⟨_, rfl⟩

theorem startsTrivia_of_front_lexeme {c : Char} {cs : List Char} {kind : Token.Kind} {more : Nat}
    (h : front c cs = .lexeme kind more) : startsTrivia c = false := by
  rw [Bool.eq_false_iff]
  intro hc
  rcases front_of_trivia_start hc cs with ⟨more', h'⟩ | h' | h' <;> rw [h] at h' <;> cases h'

/-- Lexemes at the front are compared by what follows their first character, which they share. -/
theorem longest_of_le {c : Char} {w rest : List Char} {kind : Token.Kind}
    (hw : Lexeme (c :: w) kind)
    (hle : ∀ v r kind', Lexeme (c :: v) kind' → v ++ r = w ++ rest → v.length ≤ w.length) :
    Longest (c :: w) rest kind := by
  refine ⟨hw, fun w' kind' hw' hprefix => ?_⟩
  obtain ⟨c', v, rfl⟩ := hw'.exists_cons
  obtain ⟨r, hr⟩ := hprefix
  rw [List.cons_append, List.cons_append, List.cons.injEq] at hr
  obtain ⟨rfl, hr⟩ := hr
  exact Nat.succ_le_succ (hle v r kind' hw' hr)

theorem numberFront_longest {c : Char} {cs : List Char} {kind : Token.Kind} {more : Nat}
    (hc : c.isDigit = true) (h : numberFront c cs = .lexeme kind more) :
    ∃ w rest, cs = w ++ rest ∧ w.length = more ∧ Longest (c :: w) rest kind := by
  obtain ⟨w, rest, x, rfl, rfl, hx, rfl⟩ := numberFront_sound hc h
  refine ⟨w, rest, rfl, rfl, longest_of_le (.number hx) fun v r kind' hv hr => ?_⟩
  obtain ⟨y, hy, -⟩ := hv.numeral hc
  obtain ⟨kind'', more, hfront, hle, -⟩ := numberFront_append hy r
  rw [hr, h] at hfront
  cases hfront
  exact hle

theorem wordFront_longest {c : Char} {cs : List Char} {kind : Token.Kind} {more : Nat}
    (hc : isWordStart c = true) (h : wordFront c cs = .lexeme kind more) :
    ∃ w rest, cs = w ++ rest ∧ w.length = more ∧ Longest (c :: w) rest kind := by
  rw [wordFront] at h
  cases h
  have hparts : ∀ d ∈ cs.takeWhile isWordPart, isWordPart d = true :=
    fun _ => List.mem_takeWhile_imp
  have hsplit : cs = cs.takeWhile isWordPart ++ cs.dropWhile isWordPart :=
    List.takeWhile_append_dropWhile.symm
  have hword : Word (c :: cs.takeWhile isWordPart) := ⟨hc, hparts⟩
  refine ⟨_, _, hsplit, rfl, longest_of_le hword.lexeme fun v r kind' hv hr => ?_⟩
  refine length_le_takeWhile (hv.word hc).1.2 ⟨r, ?_⟩
  rw [hr, ← hsplit]

theorem symbolFront_longest {c : Char} {cs : List Char} {kind : Token.Kind} {more : Nat}
    (hdigit : c.isDigit = false) (hword : isWordStart c = false)
    (h : symbolFront c cs = .lexeme kind more) :
    ∃ w rest, cs = w ++ rest ∧ w.length = more ∧ Longest (c :: w) rest kind := by
  unfold symbolFront at h
  split at h
  · next s hpair =>
    cases h
    obtain ⟨d, hd, hs⟩ := Option.bind_eq_some_iff.mp hpair
    obtain ⟨rest, rfl⟩ := List.head?_eq_some_iff.mp hd
    have htext := pairSymbol?_eq_some_iff.mp hs
    have hlexeme : Lexeme [c, d] (.symbol s) := htext ▸ .symbol s
    refine ⟨[d], rest, rfl, rfl, longest_of_le hlexeme fun v r kind' hv _ => ?_⟩
    -- no symbol has more than two characters
    obtain ⟨s', hs', -⟩ := hv.isSymbol hdigit hword
    rcases Symbol.text_cases s' with ⟨a, ha⟩ | ⟨a, b, hab⟩
    · simp [hs'] at ha
      simp [ha]
    · simp [hs'] at hab
      simp [hab]
  · next hpair =>
    split at h
    · next s hs =>
      cases h
      have htext := singleSymbol?_eq_some_iff.mp hs
      have hlexeme : Lexeme [c] (.symbol s) := htext ▸ .symbol s
      refine ⟨[], cs, rfl, rfl, longest_of_le hlexeme fun v r kind' hv hr => ?_⟩
      obtain ⟨s', hs', -⟩ := hv.isSymbol hdigit hword
      rcases Symbol.text_cases s' with ⟨a, ha⟩ | ⟨a, b, hab⟩
      · simp [hs'] at ha
        simp [ha]
      · -- a symbol of two characters would have been taken
        rw [hs', List.cons.injEq] at hab
        obtain ⟨rfl, rfl⟩ := hab
        rw [List.nil_append] at hr
        rw [← hr, List.cons_append, List.head?_cons, Option.bind_some,
          pairSymbol?_eq_some_iff.mpr hs'] at hpair
        cases hpair
    · cases h

/-- What `front` takes as a lexeme is the longest lexeme there. -/
theorem front_lexeme {c : Char} {cs : List Char} {kind : Token.Kind} {more : Nat}
    (h : front c cs = .lexeme kind more) :
    ∃ w rest, cs = w ++ rest ∧ w.length = more ∧ Longest (c :: w) rest kind := by
  rw [front_of_startsTrivia (startsTrivia_of_front_lexeme h)] at h
  by_cases hdigit : c.isDigit = true
  · rw [if_pos hdigit] at h
    exact numberFront_longest hdigit h
  · rw [if_neg hdigit] at h
    by_cases hword : isWordStart c = true
    · rw [if_pos hword] at h
      exact wordFront_longest hword h
    · rw [if_neg hword] at h
      exact symbolFront_longest (Bool.eq_false_iff.mpr hdigit) (Bool.eq_false_iff.mpr hword) h

/-- A lexeme alone is taken whole, as what it is. -/
theorem front_of_lexeme {c : Char} {w : List Char} {kind : Token.Kind} (h : Lexeme (c :: w) kind) :
    front c w = .lexeme kind w.length := by
  rw [front_of_startsTrivia h.head_not_trivia]
  rcases h.sort with ⟨x, hx, rfl⟩ | ⟨hword, rfl⟩ | ⟨s, hs, rfl⟩
  · rw [if_pos hx.head]
    obtain ⟨kind, more, hfront, -, halone⟩ := numberFront_append hx []
    obtain ⟨rfl, rfl⟩ := halone rfl
    rw [List.append_nil] at hfront
    exact hfront
  · have hdigit : ¬ c.isDigit = true := fun hc => by
      have hstart := hword.1
      rw [isWordStart_digit hc] at hstart
      cases hstart
    rw [if_neg hdigit, if_pos hword.1, wordFront]
    rw [List.takeWhile_eq_self_iff.mpr hword.2]
  · obtain ⟨-, hdigit, hword⟩ := Symbol.head hs
    rw [if_neg (by rw [hdigit]; exact nofun), if_neg (by rw [hword]; exact nofun)]
    cases s <;> cases hs <;> rfl

/-! ## Characters that start nothing -/

/-- What does not start as trivia does is a lexeme, or its first character is illegal. -/
theorem front_of_not_trivia {c : Char} (h : startsTrivia c = false) (cs : List Char) :
    (∃ kind more, front c cs = .lexeme kind more) ∨
      front c cs = .fault (.illegalCharacter c) ∧ c.isDigit = false ∧ isWordStart c = false ∧
        cs.head?.bind (pairSymbol? c) = none ∧ singleSymbol? c = none := by
  rw [front_of_startsTrivia h]
  cases hdigit : c.isDigit with
  | true => exact Or.inl (numberFront_eq_lexeme c cs)
  | false =>
    cases hword : isWordStart c with
    | true => exact Or.inl ⟨_, _, rfl⟩
    | false =>
      simp only [Bool.false_eq_true, if_false, symbolFront]
      cases hpair : cs.head?.bind (pairSymbol? c) with
      | some s => exact Or.inl ⟨_, _, rfl⟩
      | none =>
        cases hsingle : singleSymbol? c with
        | some s => exact Or.inl ⟨_, _, rfl⟩
        | none => exact Or.inr ⟨rfl, trivial, trivial, rfl, rfl⟩

/-- An illegal character is the first half of a symbol without the second half, or starts neither a
lexeme nor trivia. -/
theorem front_illegalCharacter {c d : Char} {cs : List Char}
    (h : front c cs = .fault (.illegalCharacter d)) :
    d = c ∧ ((c = '&' ∧ cs.head? ≠ some '&') ∨ (c = '|' ∧ cs.head? ≠ some '|') ∨
      startsTrivia c = false ∧ ∀ w kind, ¬ Lexeme (c :: w) kind) := by
  have htrivia : startsTrivia c = false := by
    rw [Bool.eq_false_iff]
    intro hc
    rcases front_of_trivia_start hc cs with ⟨more', h'⟩ | h' | h' <;> rw [h] at h' <;> cases h'
  rcases front_of_not_trivia htrivia cs with ⟨kind, more, h'⟩ | ⟨h', hdigit, hword, hpair, hsingle⟩
  · rw [h] at h'
    cases h'
  rw [h] at h'
  cases h'
  refine ⟨rfl, ?_⟩
  by_cases hlexeme : ∃ w kind, Lexeme (c :: w) kind
  · obtain ⟨w, kind, hw⟩ := hlexeme
    obtain ⟨s, hs, -⟩ := hw.isSymbol hdigit hword
    rcases Symbol.head_single hs with hsome | rfl | rfl
    · rw [hsingle] at hsome
      cases hsome
    · refine Or.inl ⟨rfl, fun hhead => ?_⟩
      rw [hhead] at hpair
      cases hpair
    · refine Or.inr (Or.inl ⟨rfl, fun hhead => ?_⟩)
      rw [hhead] at hpair
      cases hpair
  · exact Or.inr (Or.inr ⟨htrivia, fun w kind hw => hlexeme ⟨w, kind, hw⟩⟩)

/-! ## Lexemes before trivia -/

/-- A lexeme that ends the text, or is followed by trivia, is the longest one where it stands. -/
theorem Lexeme.longest {w rest : List Char} {kind : Token.Kind} (h : Lexeme w kind)
    (hrest : ∀ c ∈ rest.head?, startsTrivia c = true) : Longest w rest kind := by
  refine ⟨h, fun w' kind' hw' hprefix => ?_⟩
  by_contra hlonger
  rw [Nat.not_le] at hlonger
  -- the longer lexeme goes on with the first character of what follows
  obtain ⟨more, rfl⟩ : w <+: w' := by
    refine List.prefix_of_prefix_length_le (List.prefix_append w rest) hprefix ?_
    exact Nat.le_of_lt hlonger
  rw [List.prefix_append_right_inj] at hprefix
  obtain ⟨after, rfl⟩ := hprefix
  cases more with
  | nil => simp at hlonger
  | cons c more =>
    have htrivia := hrest c rfl
    rw [hw'.startsTrivia_of_mem c (by simp)] at htrivia
    cases htrivia

/-- The text of a lexeme decides its kind. -/
theorem Lexeme.kind_eq {w : List Char} {kind kind' : Token.Kind} (h : Lexeme w kind)
    (h' : Lexeme w kind') : kind = kind' := by
  obtain ⟨c, w, rfl⟩ := h.exists_cons
  have hfront := (front_of_lexeme h).symm.trans (front_of_lexeme h')
  injection hfront

/-- Where a lexeme starts a text, one is taken. -/
theorem Lexeme.front_eq {c : Char} {w : List Char} {kind : Token.Kind} (h : Lexeme (c :: w) kind)
    (rest : List Char) : ∃ kind' more, front c (w ++ rest) = .lexeme kind' more := by
  rcases front_of_not_trivia h.head_not_trivia (w ++ rest) with
    hlexeme | ⟨-, hdigit, hword, hpair, hsingle⟩
  · exact hlexeme
  · -- only a symbol starts with neither a digit nor a letter, and both sizes of symbols are tried
    obtain ⟨s, hs, -⟩ := h.isSymbol hdigit hword
    rcases Symbol.text_cases s with ⟨a, ha⟩ | ⟨a, b, hab⟩
    · rw [hs] at ha
      cases ha
      rw [singleSymbol?_eq_some_iff.mpr hs] at hsingle
      cases hsingle
    · rw [hs] at hab
      cases hab
      rw [List.cons_append, List.head?_cons, Option.bind_some,
        pairSymbol?_eq_some_iff.mpr hs] at hpair
      cases hpair

/-- The longest lexeme at the front of a text is taken. -/
theorem front_of_longest {c : Char} {w rest : List Char} {kind : Token.Kind}
    (h : Longest (c :: w) rest kind) : front c (w ++ rest) = .lexeme kind w.length := by
  obtain ⟨kind', more, hfront⟩ := h.1.front_eq rest
  obtain ⟨w', rest', htext, rfl, hw'⟩ := front_lexeme hfront
  -- two longest lexemes have the same length
  have hle : w'.length ≤ w.length := by
    have hle := h.2 (c :: w') kind' hw'.1 ⟨rest', by rw [List.cons_append, ← htext, List.cons_append]⟩
    exact Nat.le_of_succ_le_succ hle
  have hge : w.length ≤ w'.length := by
    have hge := hw'.2 (c :: w) kind h.1 ⟨rest, by rw [List.cons_append, htext, List.cons_append]⟩
    exact Nat.le_of_succ_le_succ hge
  obtain ⟨rfl, rfl⟩ := List.append_inj htext (Nat.le_antisymm hge hle)
  rw [hfront, hw'.1.kind_eq h.1]

end Scriptlet.Token
