import Scriptlet.Proofs.Parser.Recognition
import Scriptlet.Proofs.Token.Tiling

/-! # Loop counts

The count of a loop is written as a number literal and read as a binary64 number. The numbers that
are counts are exactly those whose value is a natural number below `2 ^ 53`, so a loop whose count is
written in decimal digits either has that count or is refused, however long the digits are
(`loop_counts_exact`).
-/

namespace Scriptlet

/-- The text of a loop without statements, its count written in the given digits. -/
def loopText (digits : List Char) : String :=
  "for " ++ String.ofList digits ++ " \x7b \x7d"

namespace Token

/-- The natural number that decimal digits denote by their places, of which the last one counts ones.
-/
def placeValue (digits : List Char) : Nat :=
  Nat.ofDigits 10 (digits.reverse.map fun d => d.toNat - '0'.toNat)

theorem digitsValue_eq_placeValue (digits : List Char) : digitsValue digits = placeValue digits := by
  rw [placeValue, Nat.ofDigits_eq_foldr, List.foldr_map, List.foldr_reverse, digitsValue]
  congr 1
  funext n d
  exact Nat.add_comm _ _

/-- The tokens of a loop without statements, up to the one for the end of the text. -/
def loopTokens (digits : List Char) : List Token :=
  let count := "for ".toList
  let body := count ++ digits ++ [' ']
  [placed (.keyword .forKw) [] "for".toList,
    placed (.number (Number.ofDecimal (digitsValue digits) 0)) count digits,
    placed (.symbol .leftBrace) body ['\x7b'],
    placed (.symbol .rightBrace) (body ++ ['\x7b'] ++ [' ']) ['\x7d']]

theorem scan_loopText {digits : List Char} (h : Digits digits) :
    scan (loopText digits) = .ok (loopTokens digits ++ [atEnd (loopText digits).toList]) := by
  have hblank (rest : List Char) : Trivia [' '] rest := .cons (.blank rfl) .none
  have hhead (rest : List Char) : ∀ c ∈ (' ' :: rest).head?, startsTrivia c = true := by
    simp [startsTrivia, isLineBlank]
  have hcount : Lexeme digits (.number (Number.ofDecimal (digitsValue digits) 0)) :=
    .number (.whole h)
  -- the tiles are put together from the end of the text, as each of them stands before the others
  have hclose : Tiles ("for ".toList ++ digits ++ [' '] ++ ['\x7b']) [' ', '\x7d'] _ [] :=
    .token (hblank _) ((Lexeme.symbol .rightBrace).longest (by simp)) (.gap .none)
  have hopen : Tiles ("for ".toList ++ digits) [' ', '\x7b', ' ', '\x7d'] _ [] :=
    .token (hblank _) ((Lexeme.symbol .leftBrace).longest (hhead _)) hclose
  have hdigits : Tiles "for".toList ([' '] ++ digits ++ [' ', '\x7b', ' ', '\x7d']) _ [] :=
    .token (hblank _) (hcount.longest (hhead _)) hopen
  have htext : (loopText digits).toList
      = "for".toList ++ ([' '] ++ digits ++ [' ', '\x7b', ' ', '\x7d']) := by
    simp [loopText]
  have htiles : Tiles [] (loopText digits).toList (loopTokens digits) [] := by
    rw [htext]
    exact .cons_token ((Lexeme.keyword .forKw).longest (hhead _)) hdigits
  exact htiles.scanFrom_eq []

end Token

/-- A loop whose count is a number that is no count is refused at that number. -/
theorem ofTokens_of_count?_eq_none {k t : Token} {x : Float} (hk : k.kind = .keyword .forKw)
    (ht : t.kind = .number x) (hx : Number.count? x = none) (ts : List Token) :
    Program.ofTokens (k :: t :: ts) = .error ⟨.invalidCount x, t.pos⟩ := by
  have hloop (block : Parser (List Stmt)) :
      Parser.countedLoop block (k :: t :: ts) = .error ⟨.invalidCount x, t.pos⟩ ts := by
    simp only [Parser.countedLoop, Parser.bind_apply, Parser.next, ht, hx, Parser.fail]
  have hstatement (bound : Nat) : Parser.statementWithin (bound + 1) (k :: t :: ts)
      = .error ⟨.invalidCount x, t.pos⟩ ts := by
    simp only [Parser.statementWithin, Parser.statement, Parser.bind_apply, Parser.peek, hk,
      Parser.optionalSemicolon, hloop]
  have hend : Parser.atEnd (k :: t :: ts) = false := by
    simp only [Parser.atEnd, hk]
  simp only [Program.ofTokens, Parser.program, Parser.unbounded, Parser.programWithin,
    Parser.statementsUntil, hend, hstatement, List.head?_cons, Option.any_some, Bool.or_self,
    Bool.false_eq_true, if_false, Reply.toExcept]

/-- A loop whose count is written as a natural number up to the largest count has that count. -/
theorem ofTokens_loopTokens {digits : List Char}
    (hcount : Token.digitsValue digits ≤ Number.maxCount) {eof : Token}
    (heof : eof.kind = .endOfFile) :
    Program.ofTokens (Token.loopTokens digits ++ [eof])
      = .ok [.loop (Token.digitsValue digits) [] ⟨1, 1⟩] := by
  have hclause : Grammar.Clause true (.loop (Token.digitsValue digits) [] ⟨1, 1⟩)
      (Token.loopTokens digits) :=
    .loop (k := Token.placed (.keyword .forKw) [] "for".toList) rfl rfl
      (Number.isCount_ofDecimal _ hcount) (.braces rfl .nil rfl)
  have hstatements := Grammar.Statements.cons (.bare hclause) .nil fun _ => by simp [Grammar.Apart]
  rw [List.append_nil] at hstatements
  exact hstatements.ofTokens heof

/-- Loop counts are exact. The number that a pattern of bits stands for is the count `n` if and only
if its value is `n` and `n` is below `2 ^ 53`. A loop whose number is no count is refused at that
number. So a loop without statements whose count is written in decimal digits, however many they are,
has the natural number that they denote as its count if this number is below `2 ^ 53`, and is refused
at its digits otherwise. -/
theorem loop_counts_exact :
    (∀ (bits : UInt64) (n : Nat), Number.count? (Float.ofBits bits) = some n ↔
      (Number.Parts.ofBits bits.toNat).value? = some (n : ℚ) ∧ n ≤ 2 ^ 53 - 1) ∧
    (∀ (bits : UInt64) (k t : Token) (ts : List Token), k.kind = .keyword .forKw →
      t.kind = .number (Float.ofBits bits) →
      (∀ n : Nat, n ≤ 2 ^ 53 - 1 → (Number.Parts.ofBits bits.toNat).value? ≠ some (n : ℚ)) →
      Number.count? (Float.ofBits bits) = none ∧
        Program.ofTokens (k :: t :: ts) = .error ⟨.invalidCount (Float.ofBits bits), t.pos⟩) ∧
    ∀ digits : List Char, Token.Digits digits →
      ∃ ts, Token.scan (loopText digits) = .ok ts ∧
        (Token.placeValue digits ≤ 2 ^ 53 - 1 →
          Program.ofTokens ts = .ok [.loop (Token.placeValue digits) [] ⟨1, 1⟩]) ∧
        (2 ^ 53 - 1 < Token.placeValue digits →
          Program.ofTokens ts =
            .error ⟨.invalidCount (Number.ofDecimal (Token.placeValue digits) 0), ⟨1, 5⟩⟩) := by
  have hcount (bits : UInt64) (n : Nat) : Number.count? (Float.ofBits bits) = some n ↔
      (Number.Parts.ofBits bits.toNat).value? = some (n : ℚ) ∧ n ≤ 2 ^ 53 - 1 := by
    rw [Number.count?_eq_some_iff, Number.IsCount, Number.value?, Number.ofFloat_ofBits]
    rfl
  refine ⟨hcount, ?_, ?_⟩
  · intro bits k t ts hk ht hno
    have hnone : Number.count? (Float.ofBits bits) = none := by
      rw [Option.eq_none_iff_forall_ne_some]
      intro n hn
      obtain ⟨hvalue, hle⟩ := (hcount bits n).mp hn
      exact hno n hle hvalue
    exact ⟨hnone, ofTokens_of_count?_eq_none hk ht hnone ts⟩
  · intro digits hdigits
    rw [← Token.digitsValue_eq_placeValue]
    refine ⟨_, Token.scan_loopText hdigits, ?_, ?_⟩
    · intro hle
      exact ofTokens_loopTokens hle rfl
    · intro hlt
      have hnone := (Number.count?_eq_none_iff _).mpr fun n => Number.not_isCount_ofDecimal _ n hlt
      exact ofTokens_of_count?_eq_none rfl rfl hnone _

/-- The largest count with zeros before it; the next number, which is refused; zero under a minus
sign; and one and a half, which is refused too. -/
theorem largest_count_exact :
    (Token.Digits "0009007199254740991".toList ∧
      ∃ ts, Token.scan "for 0009007199254740991 \x7b \x7d" = .ok ts ∧
        Program.ofTokens ts = .ok [.loop 9007199254740991 [] ⟨1, 1⟩]) ∧
    (Token.Digits "9007199254740992".toList ∧
      ∃ ts, Token.scan "for 9007199254740992 \x7b \x7d" = .ok ts ∧
        Program.ofTokens ts =
          .error ⟨.invalidCount (Number.ofDecimal 9007199254740992 0), ⟨1, 5⟩⟩) ∧
    Number.count? (Float.ofBits 0x8000000000000000) = some 0 ∧
    ∃ k t : Token, k.kind = .keyword .forKw ∧ t.kind = .number (Float.ofBits 0x3ff8000000000000) ∧
      Program.ofTokens [k, t] = .error ⟨.invalidCount (Float.ofBits 0x3ff8000000000000), t.pos⟩ := by
  obtain ⟨hcount, hrefused, htext⟩ := loop_counts_exact
  refine ⟨?_, ?_, ?_, ?_⟩
  · have hdigits : Token.Digits "0009007199254740991".toList := by simp [Token.Digits]
    obtain ⟨ts, hscan, hok, -⟩ := htext _ hdigits
    have hvalue : Token.placeValue "0009007199254740991".toList = 9007199254740991 := by
      rw [← Token.digitsValue_eq_placeValue]
      decide
    rw [hvalue] at hok
    exact ⟨hdigits, ts, hscan, hok (by norm_num)⟩
  · have hdigits : Token.Digits "9007199254740992".toList := by simp [Token.Digits]
    obtain ⟨ts, hscan, -, herror⟩ := htext _ hdigits
    have hvalue : Token.placeValue "9007199254740992".toList = 9007199254740992 := by
      rw [← Token.digitsValue_eq_placeValue]
      decide
    rw [hvalue] at herror
    exact ⟨hdigits, ts, hscan, herror (by norm_num)⟩
  · refine (hcount _ 0).mpr ⟨?_, by norm_num⟩
    have hparts : Number.Parts.ofBits (0x8000000000000000 : UInt64).toNat
        = .finite true 0 Number.minExponent := by decide
    rw [hparts, Number.Parts.value?]
    norm_num
  · have hparts : Number.Parts.ofBits (0x3ff8000000000000 : UInt64).toNat
        = .finite false 6755399441055744 (-52) := by decide
    refine ⟨⟨.keyword .forKw, ⟨1, 1⟩, ⟨0, 3⟩⟩, ⟨.number _, ⟨1, 5⟩, ⟨4, 7⟩⟩, rfl, rfl, ?_⟩
    refine (hrefused _ _ _ [] rfl rfl fun n _ hn => ?_).2
    rw [hparts, Number.Parts.value?, Option.some.injEq] at hn
    have hhalf : (3 : ℚ) = 2 * n := by
      rw [← hn]
      norm_num
    have hodd : 3 = 2 * n := by exact_mod_cast hhalf
    omega

end Scriptlet
