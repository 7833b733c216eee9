import Scriptlet.CommandLine
import Scriptlet.Proofs.Run

/-! # Errors in a session

A session runs its lines on one machine, so a function that one line declares may fail when a later
line calls it. The error then stands where the function was written, but the report quotes the line
that called it. An error of scanning or parsing always stands in the line that is reported; an error
of running stands there or in an earlier line of the session (`reported_position`), and the second
does happen (`reported_outside_line`).
-/

namespace Scriptlet.Repl

/-- The session after the given lines, unless one of them ends it. -/
def after? (r : Repl) : List String → Option Repl
  | [] => some r
  | input :: rest =>
    match r.feed input with
    | .quit => none
    | .next r' _ _ => r'.after? rest

/-- The line is run by the session and ends with the error. -/
def Fails (r : Repl) (input : String) (e : Error) : Prop :=
  Text.trimEnd input ≠ exitLine ∧ Text.trimEnd input ≠ "" ∧
    ∃ m, run r.limit ampleFuel Machine.firstScope (Text.trimEnd input) r.machine = .failed e m

/-- The positions of the tokens of lines. -/
def Marks (lines : List String) (p : Position) : Prop :=
  ∃ line ∈ lines, Token.Marks (Text.trimEnd line) p

/-- An error is reported with the line that was run as its source. -/
theorem feed_of_fails {r : Repl} {input : String} {e : Error} (h : r.Fails input e) :
    ∃ r' out, r.feed input =
      .next r' out ((Diagnostic.mk e origin (Text.trimEnd input)).text ++ "\n") := by
  obtain ⟨hexit, hempty, m, hrun⟩ := h
  refine ⟨⟨m.drained, r.limit⟩, m.sink.text, ?_⟩
  rw [feed, if_neg hexit, if_neg (by simpa using hempty), hrun]

/-- A line leaves functions with positions of the line or of functions that were there before. -/
theorem feed_stays {Q : Position → Prop} {r r' : Repl} {input out err : String}
    (hinput : ∀ p, Token.Marks (Text.trimEnd input) p → Q p) (hr : r.machine.store.In (.within Q))
    (h : r.feed input = .next r' out err) : r'.machine.store.In (.within Q) := by
  rw [feed] at h
  by_cases hexit : Text.trimEnd input = exitLine
  · rw [if_pos hexit] at h
    cases h
  · rw [if_neg hexit] at h
    by_cases hempty : (Text.trimEnd input).isEmpty = true
    · rw [if_pos hempty] at h
      cases h
      exact hr
    · rw [if_neg hempty] at h
      have hstays := run_stays hinput hr r.limit ampleFuel Machine.firstScope
      cases hrun : run r.limit ampleFuel Machine.firstScope (Text.trimEnd input) r.machine with
      | done v m =>
        rw [hrun] at h hstays
        cases h
        exact hstays
      | failed e m =>
        rw [hrun] at h hstays
        cases h
        exact hstays.1
      | unfinished =>
        rw [hrun] at h
        cases h
        exact hr

theorem new_in (R : Region) (limit : Nat) : (Repl.new limit).machine.store.In R :=
  Machine.global_in R .none

/-- The functions of a session have positions of its lines. -/
theorem after?_stays {Q : Position → Prop} {r r' : Repl} {lines : List String}
    (hlines : ∀ p, Marks lines p → Q p) (hr : r.machine.store.In (.within Q))
    (h : r.after? lines = some r') : r'.machine.store.In (.within Q) := by
  induction lines generalizing r with
  | nil =>
    cases h
    exact hr
  | cons input rest ih =>
    rw [after?] at h
    cases hfeed : r.feed input with
    | quit =>
      rw [hfeed] at h
      cases h
    | next next out err =>
      rw [hfeed] at h
      have hinput : ∀ p, Token.Marks (Text.trimEnd input) p → Q p :=
        fun p hp => hlines p ⟨input, List.mem_cons_self .., hp⟩
      have hrest : ∀ p, Marks rest p → Q p := by
        rintro p ⟨line, hline, hp⟩
        exact hlines p ⟨line, List.mem_cons_of_mem _ hline, hp⟩
      exact ih hrest (feed_stays hinput hr hfeed) h

/-- In a line without a line break every position has the line number one. -/
theorem position_in_line {line before after : List Char} (hline : line = before ++ after)
    (hbreak : '\n' ∉ line) :
    (Position.after before).line = 1 ∧ 1 ≤ (Position.after before).column ∧
      (Position.after before).column ≤ line.length + 1 := by
  subst hline
  have hcount : before.count '\n' = 0 :=
    List.count_eq_zero_of_not_mem fun hmem => hbreak (List.mem_append_left after hmem)
  have hlength := (Text.lastLine_suffix before).length_le
  refine ⟨?_, Position.column_after_pos before, ?_⟩
  · rw [Position.after, hcount]
  · show 1 + (Text.lastLine before).length ≤ (before ++ after).length + 1
    rw [List.length_append]
    omega

/-- A place in the text that is run, with its line and column if the text is one line. -/
def Holds (line : String) (p : Position) : Prop :=
  ∃ before after, line.toList = before ++ after ∧ p = Position.after before ∧
    ('\n' ∉ line.toList → p.line = 1 ∧ 1 ≤ p.column ∧ p.column ≤ line.length + 1)

theorem holds_of_place {line : String} {before after : List Char}
    (h : line.toList = before ++ after) : Holds line (Position.after before) := by
  refine ⟨before, after, h, rfl, fun hbreak => ?_⟩
  have hposition := position_in_line h hbreak
  rwa [String.length_toList] at hposition

theorem holds_of_marks {line : String} {p : Position} (h : Token.Marks line p) : Holds line p := by
  obtain ⟨before, after, hline, rfl⟩ := h.exists_place
  exact holds_of_place hline

/-- The error of a line is reported with that line as its source. It stands in the line or right
after its end, or it is an error of running and stands at a token of an earlier line of the session.
-/
theorem reported_position {limit : Nat} {earlier : List String} {r : Repl} {input : String}
    {e : Error} (hr : (Repl.new limit).after? earlier = some r) (he : r.Fails input e) :
    (∃ r' out, r.feed input =
        .next r' out ((Diagnostic.mk e origin (Text.trimEnd input)).text ++ "\n")) ∧
    (Holds (Text.trimEnd input) e.pos ∨
      ∃ cause line, e = .running ⟨cause, e.pos⟩ ∧ line ∈ earlier ∧
        Token.Marks (Text.trimEnd line) e.pos) := by
  refine ⟨feed_of_fails he, ?_⟩
  obtain ⟨-, -, m, hrun⟩ := he
  have hsession : r.machine.store.In
      (.within fun p => Marks earlier p ∨ Token.Marks (Text.trimEnd input) p) :=
    after?_stays (fun p hp => Or.inl hp) (new_in _ limit) hr
  have hstands : e.Stands (fun p => Marks earlier p ∨ Token.Marks (Text.trimEnd input) p)
      (Text.trimEnd input) := by
    have hstays := run_stays (fun p hp => Or.inr hp) hsession r.limit ampleFuel Machine.firstScope
    rw [hrun] at hstays
    exact hstays.2
  cases hstands with
  | @scanning e herror =>
    obtain ⟨before, c, after, hline, -, hpos⟩ := Token.scan_eq_error herror
    have hplace : Holds (Text.trimEnd input) e.pos := hpos ▸ holds_of_place hline
    exact Or.inl hplace
  | parsing hmarks => exact Or.inl (holds_of_marks hmarks)
  | @running e hmarks =>
    rcases hmarks with ⟨line, hline, hearlier⟩ | hcurrent
    · exact Or.inr ⟨e.cause, line, rfl, hline, hearlier⟩
    · exact Or.inl (holds_of_marks hcurrent)

/-! ## An error outside the line -/

/-- A function that fails is declared in one line and called in a shorter one. -/
theorem failing_session :
    ∃ r e, (Repl.new defaultLimit).after? ["fn f() \x7b x \x7d"] = some r ∧ r.Fails "f()" e ∧
      e.pos = ⟨1, 10⟩ := by
  have hfails : ((Repl.new defaultLimit).after? ["fn f() \x7b x \x7d"]).any (fun r =>
      (run r.limit ampleFuel Machine.firstScope (Text.trimEnd "f()") r.machine).failsAt ⟨1, 10⟩) =
        true := by
    decide +kernel
  obtain ⟨r, hr, hrun⟩ := (Option.any_eq_true _ _).mp hfails
  obtain ⟨e, m, hfailed, hpos⟩ := Outcome.eq_failed_of_failsAt hrun
  exact ⟨r, e, hr, ⟨by decide, by decide, m, hfailed⟩, hpos⟩

/-- The report of an error may quote a line that does not hold its position. -/
theorem reported_outside_line :
    ∃ limit earlier r input e, (Repl.new limit).after? earlier = some r ∧ r.Fails input e ∧
      ¬ (e.pos.line = 1 ∧ 1 ≤ e.pos.column ∧
        e.pos.column ≤ (Text.trimEnd input).length + 1) := by
  obtain ⟨r, e, hr, he, hpos⟩ := failing_session
  refine ⟨defaultLimit, _, r, _, e, hr, he, ?_⟩
  rw [hpos]
  decide

theorem failing_session_position :
    ∃ r e, (Repl.new defaultLimit).after? ["fn f() \x7b x \x7d"] = some r ∧ r.Fails "f()" e ∧
      (∃ r' out, r.feed "f()" =
        .next r' out ((Diagnostic.mk e origin (Text.trimEnd "f()")).text ++ "\n")) ∧
      ∃ line ∈ ["fn f() \x7b x \x7d"], Token.Marks (Text.trimEnd line) e.pos := by
  obtain ⟨r, e, hr, he, hpos⟩ := failing_session
  obtain ⟨hfeed, ⟨_, _, -, -, hinside⟩ | ⟨_, line, -, hline, hmarks⟩⟩ := reported_position hr he
  · have hcolumn := (hinside (by decide)).2.2
    rw [hpos] at hcolumn
    exact absurd hcolumn (by decide)
  · exact ⟨r, e, hr, he, hfeed, line, hline, hmarks⟩

end Scriptlet.Repl
