import Scriptlet.Proofs.Run
import Scriptlet.Proofs.Text.Lines

/-! # The caret of a diagnostic

When a text fails on a new machine, the diagnostic shows the line of the source in which the error
stands, and the caret below that line points at the first character of a lexeme of the text, or past
the end of its last line (`caret_at_lexeme`). What the caret points at is found from the text before
the position; how the caret gets there is a matter of the diagnostic alone
(`Diagnostic.pointsInto`).
-/

namespace Scriptlet

/-! ## Characters that start lexemes -/

namespace Token

/-- After the text `before`, the character `c` starts a lexeme: a token of the text, or the
character at which scanning stops. -/
def StartsLexeme (source : String) (before : List Char) (c : Char) (after : List Char) : Prop :=
  source.toList = before ++ c :: after ∧
    ((∃ ts t, scan source = .ok ts ∧ t ∈ ts ∧ t.pos = Position.after before ∧
        (t.lexeme source).toList.head? = some c) ∨
      ∃ f, scan source = .error ⟨f, Position.after before⟩ ∧ Stuck f c after)

theorem Stuck.ne_lineBreak {f : Fault} {c : Char} {rest : List Char} (h : Stuck f c rest) :
    c ≠ '\n' ∧ c ≠ '\r' := by
  cases h with
  | foreign _ htrivia =>
    constructor
    · rintro rfl
      exact htrivia [] [] .lineBreak
    · rintro rfl
      exact htrivia [] [] (.blank rfl)
  | _ => decide

theorem Lexeme.head_ne_lineBreak {c : Char} {w : List Char} {kind : Token.Kind}
    (h : Lexeme (c :: w) kind) : c ≠ '\n' ∧ c ≠ '\r' := by
  have htrivia := h.head_not_trivia
  constructor <;> rintro rfl <;> cases htrivia

/-- A token other than the end of the text starts with a character that belongs to no line break. -/
theorem Marks.cases {source : String} {p : Position} (h : Marks source p) :
    (∃ ts, scan source = .ok (ts ++ [atEnd source.toList]) ∧ p = (atEnd source.toList).pos) ∨
      ∃ before c after, StartsLexeme source before c after ∧ p = Position.after before ∧
        c ≠ '\n' ∧ c ≠ '\r' := by
  obtain ⟨ts, hts, t, ht, rfl⟩ := h
  rcases mem_scan hts ht with rfl | ⟨before, w, after, kind, hsource, hw, rfl⟩
  · obtain ⟨body, rfl, -⟩ := scan_eq_ok hts
    exact Or.inl ⟨body, hts, rfl⟩
  · obtain ⟨c, w, rfl⟩ := hw.1.exists_cons
    have hhead : ((placed kind before (c :: w)).lexeme source).toList.head? = some c := by
      rw [lexeme_placed kind hsource, String.toList_ofList, List.head?_cons]
    refine Or.inr ⟨before, c, w ++ after, ⟨?_, Or.inl ⟨ts, _, hts, ht, rfl, hhead⟩⟩, rfl,
      hw.1.head_ne_lineBreak⟩
    rw [hsource, List.append_assoc, List.cons_append]

end Token

/-! ## The rendered text -/

namespace Diagnostic

/-- Among the lines of a diagnostic are a line of the source, after a gutter, and below it a line
with one caret. The caret stands under the column of the error. -/
def PointsInto (d : Diagnostic) (line : String) : Prop :=
  ∃ head gutter below tail,
    d.text = head ++ "\n" ++ gutter ++ line ++ "\n" ++ below ++ "\n" ++ tail ∧
      '\n' ∉ (gutter ++ line).toList ∧ '\n' ∉ below.toList ∧ below.toList.count '^' = 1 ∧
      below.toList[gutter.length + (d.error.pos.column - 1)]? = some '^'

theorem lineBreak_notMem_toString (n : Nat) : '\n' ∉ (toString n).toList := by
  rw [Nat.toString_eq_ofList_toDigits, String.toList_ofList]
  intro hmem
  have hdigit := Nat.isDigit_of_mem_toDigits (by decide) (by decide) hmem
  cases hdigit

theorem toList_blanks (n : Nat) : (blanks n).toList = List.replicate n ' ' :=
  String.toList_ofList

/-- What stands before the source line, up to the line break. -/
def header (d : Diagnostic) : String :=
  "error[E" ++ toString d.error.code ++ "]: " ++ d.error.category.text ++ " - " ++
    d.error.description ++ "\n  --> " ++ d.origin ++ ":" ++ d.error.pos.text ++ "\n" ++ d.margin ++
    " |"

/-- What stands before the source line in its own line. -/
def gutter (d : Diagnostic) : String :=
  toString d.error.pos.line ++ " | "

/-- The line below the source line. -/
def underline (d : Diagnostic) : String :=
  d.margin ++ " | " ++ blanks (d.error.pos.column - 1) ++ "^"

theorem excerpt_eq {d : Diagnostic} {line : String} (h : d.sourceLine? = some line) :
    d.excerpt = d.gutter ++ line ++ "\n" ++ d.underline ++ "\n" := by
  have hcaret : "^\n" = "^" ++ "\n" := by decide
  rw [excerpt, h]
  simp only [gutter, underline]
  rw [hcaret]
  simp only [String.append_assoc]

theorem text_eq (d : Diagnostic) :
    d.text = d.header ++ "\n" ++ d.excerpt ++ (d.margin ++ " | " ++ d.error.message) := by
  have hbar : " |\n" = " |" ++ "\n" := by decide
  unfold text header
  rw [hbar]
  simp only [String.append_assoc]

theorem toList_underline (d : Diagnostic) :
    d.underline.toList = List.replicate (toString d.error.pos.line).length ' ' ++ [' ', '|', ' '] ++
      List.replicate (d.error.pos.column - 1) ' ' ++ ['^'] := by
  simp only [underline, margin, String.toList_append, toList_blanks]
  rfl

/-- The caret stands under the column of the error, whatever the width of the line number. -/
theorem pointsInto {d : Diagnostic} {line : String} (h : d.sourceLine? = some line) :
    d.PointsInto line := by
  refine ⟨d.header, d.gutter, d.underline, d.margin ++ " | " ++ d.error.message, ?_, ?_, ?_, ?_, ?_⟩
  · rw [text_eq, excerpt_eq h]
    simp only [String.append_assoc]
  · simp only [gutter, String.toList_append, List.mem_append, not_or]
    exact ⟨⟨lineBreak_notMem_toString _, by decide⟩, Text.lineBreak_notMem_line? h⟩
  · rw [toList_underline]
    simp
  · rw [toList_underline]
    simp [List.count_replicate]
  · have hoffset : d.gutter.length + (d.error.pos.column - 1) =
        (List.replicate (toString d.error.pos.line).length ' ' ++ [' ', '|', ' '] ++
          List.replicate (d.error.pos.column - 1) ' ').length := by
      rw [gutter, String.length_append]
      simp only [List.length_append, List.length_replicate]
      rfl
    rw [toList_underline, hoffset, List.getElem?_append_right (Nat.le_refl _), Nat.sub_self]
    rfl

end Diagnostic

/-! ## Errors of a run on a new machine -/

/-- A text without characters does not fail. -/
theorem run_empty_ne_failed {limit fuel : Nat} {scope : ScopeId} {m m' : Machine} {e : Error} :
    run limit fuel scope "" m ≠ .failed e m' := by
  have hscan : Token.scan "" = .ok [Token.atEnd []] := Token.scanFrom_nil [] []
  have hparse : Program.ofTokens [Token.atEnd []] = .ok [] := rfl
  rw [run, hscan]
  simp only [hparse]
  rw [Program.eval]
  cases fuel with
  | zero =>
    rw [evalBlock]
    intro h
    cases h
  | succ fuel =>
    rw [evalBlock]
    intro h
    cases h

/-- If the error stands at the end of the text, the line that is shown is the last one, or none if
the text ends with a line break. -/
theorem sourceLine?_end {d : Diagnostic} (hsource : d.source ≠ "")
    (hpos : d.error.pos = Position.after d.source.toList) :
    (d.sourceLine? = none ↔ d.source.toList.getLast? = some '\n') ∧
      ∀ line, d.sourceLine? = some line →
        (Text.lines d.source).getLast? = some line ∧ d.error.pos.column = line.length + 1 := by
  have hnil : d.source.toList ≠ [] := by simpa using hsource
  rw [Diagnostic.sourceLine?, hpos, Text.line?_end]
  by_cases hlast : Text.lastLine d.source.toList = []
  · have hbreak := (Text.lastLine_eq_nil_iff.mp hlast).resolve_left hnil
    simp [hlast, hbreak]
  · have hbreak : d.source.toList.getLast? ≠ some '\n' :=
      fun hbreak => hlast (Text.lastLine_eq_nil_iff.mpr (Or.inr hbreak))
    rw [if_neg hlast]
    refine ⟨by simp [hbreak], ?_⟩
    rintro line ⟨⟩
    refine ⟨Text.getLast?_lines hlast, ?_⟩
    rw [String.length_ofList]
    exact Nat.add_comm _ _

/-- If the error stands at a character that belongs to no line break, its line is shown and has that
character in the column of the error. -/
theorem sourceLine?_character {d : Diagnostic} {before after : List Char} {c : Char}
    (hsource : d.source.toList = before ++ c :: after) (hpos : d.error.pos = Position.after before)
    (hbreak : c ≠ '\n') (hreturn : c ≠ '\r') :
    ∃ line, d.sourceLine? = some line ∧ (Text.lines d.source)[d.error.pos.line - 1]? = some line ∧
      1 ≤ d.error.pos.column ∧ d.error.pos.column ≤ line.length ∧
      line.toList[d.error.pos.column - 1]? = some c := by
  obtain ⟨line, hline, hc⟩ := Text.line?_after hsource hbreak hreturn
  rw [← hpos] at hline hc
  have hnumber : 1 ≤ d.error.pos.line := hpos ▸ Position.line_after_pos before
  have hcolumn : 1 ≤ d.error.pos.column := hpos ▸ Position.column_after_pos before
  refine ⟨line, hline, ?_, hcolumn, ?_, hc⟩
  · rw [← Nat.sub_add_cancel hnumber] at hline
    exact hline
  · obtain ⟨hlt, -⟩ := List.getElem?_eq_some_iff.mp hc
    rw [String.length_toList] at hlt
    omega

/-- An error of a text that brings all positions with it stands at the end of the text or at the
first character of a lexeme. -/
theorem Error.Stands.cases {source : String} {e : Error}
    (h : e.Stands (Token.Marks source) source) :
    (∃ ts, Token.scan source = .ok (ts ++ [Token.atEnd source.toList]) ∧
        e.pos = (Token.atEnd source.toList).pos) ∨
      ∃ before c after, Token.StartsLexeme source before c after ∧ e.pos = Position.after before ∧
        c ≠ '\n' ∧ c ≠ '\r' := by
  cases h with
  | parsing hmarks => exact hmarks.cases
  | running hmarks => exact hmarks.cases
  | @scanning e herror =>
    obtain ⟨before, c, after, hsource, hstuck, hpos⟩ := Token.scan_eq_error herror
    have herror' : Token.scan source = .error ⟨e.fault, Position.after before⟩ := hpos ▸ herror
    exact Or.inr ⟨before, c, after, ⟨hsource, Or.inr ⟨e.fault, herror', hstuck⟩⟩, hpos,
      hstuck.ne_lineBreak⟩

/-- An error of a text that is run on a new machine stands in the text or at its end. The diagnostic
shows its line, as the text splits into lines, and the caret points at the first character of a
lexeme; at the end of the text it points past the last line, which is shown unless it is empty. -/
theorem caret_at_lexeme {limit fuel : Nat} {output : SinkBehaviour} {source : String} {e : Error}
    {m : Machine} (h : run limit fuel Machine.firstScope source (.global output) = .failed e m)
    (origin : String) :
    e.pos ≠ .nowhere ∧
    ((∃ ts, Token.scan source = .ok (ts ++ [Token.atEnd source.toList]) ∧
        e.pos = (Token.atEnd source.toList).pos ∧
        ((Diagnostic.mk e origin source).sourceLine? = none ↔ source.toList.getLast? = some '\n') ∧
        ∀ line, (Diagnostic.mk e origin source).sourceLine? = some line →
          (Text.lines source).getLast? = some line ∧ e.pos.column = line.length + 1 ∧
          (Diagnostic.mk e origin source).PointsInto line) ∨
      ∃ before c after line, Token.StartsLexeme source before c after ∧
        e.pos = Position.after before ∧
        (Diagnostic.mk e origin source).sourceLine? = some line ∧
        (Text.lines source)[e.pos.line - 1]? = some line ∧ 1 ≤ e.pos.column ∧
        e.pos.column ≤ line.length ∧ line.toList[e.pos.column - 1]? = some c ∧
        (Diagnostic.mk e origin source).PointsInto line) := by
  have hstands : e.Stands (Token.Marks source) source := by
    have hstays : RunStays (Token.Marks source) source
        (run limit fuel Machine.firstScope source (.global output)) :=
      run_stays (fun _ hp => hp) (Machine.global_in _ output) limit fuel Machine.firstScope
    rw [h] at hstays
    exact hstays.2
  have hsource : source ≠ "" := by
    rintro rfl
    exact run_empty_ne_failed h
  rcases hstands.cases with ⟨ts, hscan, hpos⟩ | ⟨before, c, after, hstarts, hpos, hbreak, hreturn⟩
  · have hend := sourceLine?_end (d := ⟨e, origin, source⟩) hsource hpos
    refine ⟨hpos ▸ Position.after_ne_nowhere _, Or.inl ⟨ts, hscan, hpos, hend.1, ?_⟩⟩
    intro line hline
    exact ⟨(hend.2 line hline).1, (hend.2 line hline).2, Diagnostic.pointsInto hline⟩
  · refine ⟨hpos ▸ Position.after_ne_nowhere _, Or.inr ?_⟩
    obtain ⟨line, hline, hlines, hfirst, hlast, hc⟩ :=
      sourceLine?_character (d := ⟨e, origin, source⟩) hstarts.1 hpos hbreak hreturn
    exact ⟨before, c, after, line, hstarts, hpos, hline, hlines, hfirst, hlast, hc,
      Diagnostic.pointsInto hline⟩

/-- A name without a value after a comment of two lines: the caret stands under the name, in the
line where the comment ends. -/
theorem unresolvedAfterComment_caret :
    ∃ e m, run 8 8 Machine.firstScope "#| é\n|# x" (.global .none) = .failed e m ∧
      e.pos = ⟨2, 4⟩ ∧ (Diagnostic.mk e "script" "#| é\n|# x").sourceLine? = some "|# x" ∧
      (Diagnostic.mk e "script" "#| é\n|# x").PointsInto "|# x" := by
  have hfails :
      (run 8 8 Machine.firstScope "#| é\n|# x" (.global .none)).failsAt ⟨2, 4⟩ = true := by
    decide +kernel
  obtain ⟨e, m, hrun, hpos⟩ := Outcome.eq_failed_of_failsAt hfails
  have hshown : (Diagnostic.mk e "script" "#| é\n|# x").sourceLine? = some "|# x" := by
    rw [Diagnostic.sourceLine?, hpos]
    show Text.line? "#| é\n|# x" 2 = some "|# x"
    decide
  refine ⟨e, m, hrun, hpos, hshown, ?_⟩
  rcases (caret_at_lexeme hrun "script").2 with
    ⟨_, -, -, -, hline⟩ | ⟨_, _, _, line, -, -, hline, -, -, -, -, hpoints⟩
  · exact (hline _ hshown).2.2
  · rw [hshown, Option.some.injEq] at hline
    rwa [hline]

end Scriptlet
