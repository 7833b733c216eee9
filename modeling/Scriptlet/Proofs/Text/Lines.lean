import Scriptlet.Text.Lines
import Scriptlet.Proofs.Text.Place

/-! # The line of a place

The lines of a text are complete up to the last line break before a place, and the next one starts
with what stands between that line break and the place. So the line with the number of the place is
there and shows the character at the place under its column, unless that character belongs to a line
break (`line?_after`). At the end of a text it is the last line, if the text does not end with a
line break (`line?_end`).
-/

namespace Scriptlet.Text

/-- The lines before a place are as many as there are line breaks before it. -/
theorem linesFrom_append (before rest : List Char) :
    ∃ complete, complete.length = before.count '\n' ∧
      linesFrom (before ++ rest) [] = complete ++ linesFrom rest (lastLine before).reverse := by
  induction before using List.reverseRecOn generalizing rest with
  | nil => exact ⟨[], rfl, rfl⟩
  | append_singleton before c ih =>
    obtain ⟨complete, hlength, hlines⟩ := ih (c :: rest)
    rw [List.append_assoc, List.singleton_append, hlines, linesFrom, lastLine_concat,
      List.count_append]
    by_cases hc : c = '\n'
    · rw [if_pos hc, if_pos hc]
      exact ⟨complete ++ [_], by simp [hlength, hc], by rw [List.append_assoc]; rfl⟩
    · rw [if_neg hc, if_neg hc]
      exact ⟨complete, by simp [hlength, hc], by rw [List.reverse_append]; rfl⟩

/-- The line with the number of a place is the first one from there on. -/
theorem line?_eq_head? {s : String} {before rest : List Char} (h : s.toList = before ++ rest) :
    line? s (Position.after before).line =
      (linesFrom rest (lastLine before).reverse).head?.map String.ofList := by
  obtain ⟨complete, hlength, hlines⟩ := linesFrom_append before rest
  rw [Position.after, Nat.add_comm]
  show (lines s)[before.count '\n']? = _
  rw [lines, h, hlines, List.getElem?_map, ← hlength, List.getElem?_append_right (Nat.le_refl _),
    Nat.sub_self, List.head?_eq_getElem?]

/-- A line break takes at most the last character from a line. -/
theorem exists_dropCarriageReturn {c : Char} (hc : c ≠ '\r') (start more : List Char) :
    ∃ tail, dropCarriageReturn (start ++ c :: more) = start ++ c :: tail := by
  rw [dropCarriageReturn]
  split
  · next hlast =>
    have hmore : more ≠ [] := by
      rintro rfl
      rw [List.getLast?_concat, Option.some.injEq] at hlast
      exact hc hlast
    refine ⟨more.dropLast, ?_⟩
    rw [List.dropLast_append_of_ne_nil (List.cons_ne_nil _ _),
      List.dropLast_cons_of_ne_nil hmore]
  · exact ⟨more, rfl⟩

/-- A character that belongs to no line break stays in its line. -/
theorem exists_linesFrom {c : Char} (hc : c ≠ '\r') (start more rest : List Char) :
    ∃ tail later, linesFrom rest (start ++ c :: more).reverse = (start ++ c :: tail) :: later := by
  induction rest generalizing more with
  | nil =>
    refine ⟨more, [], ?_⟩
    rw [linesFrom, List.reverse_reverse, if_neg (by simp)]
  | cons d rest ih =>
    rw [linesFrom]
    by_cases hd : d = '\n'
    · obtain ⟨tail, htail⟩ := exists_dropCarriageReturn hc start more
      rw [if_pos hd, List.reverse_reverse, htail]
      exact ⟨tail, _, rfl⟩
    · rw [if_neg hd]
      simpa using ih (more ++ [d])

/-- The line of a place shows the character at the place under its column. -/
theorem line?_after {s : String} {before rest : List Char} {c : Char}
    (h : s.toList = before ++ c :: rest) (hbreak : c ≠ '\n') (hreturn : c ≠ '\r') :
    ∃ line, line? s (Position.after before).line = some line ∧
      line.toList[(Position.after before).column - 1]? = some c := by
  obtain ⟨tail, later, hlines⟩ := exists_linesFrom hreturn (lastLine before) [] rest
  refine ⟨String.ofList (lastLine before ++ c :: tail), ?_, ?_⟩
  · rw [line?_eq_head? h, linesFrom, if_neg hbreak]
    rw [List.reverse_append] at hlines
    rw [show c :: (lastLine before).reverse = [c].reverse ++ (lastLine before).reverse from rfl,
      hlines, List.head?_cons, Option.map_some]
  · rw [String.toList_ofList, Position.after, Nat.add_sub_cancel_left,
      List.getElem?_append_right (Nat.le_refl _), Nat.sub_self, List.getElem?_cons_zero]

theorem lastLine_eq_nil_iff {cs : List Char} :
    lastLine cs = [] ↔ cs = [] ∨ cs.getLast? = some '\n' := by
  induction cs using List.reverseRecOn with
  | nil => simp
  | append_singleton cs c _ =>
    rw [lastLine_concat]
    by_cases hc : c = '\n' <;> simp [hc]

/-- At the end of a text stands its last line, or no line. -/
theorem line?_end (s : String) :
    line? s (Position.after s.toList).line =
      if lastLine s.toList = [] then none else some (String.ofList (lastLine s.toList)) := by
  rw [line?_eq_head? (List.append_nil _).symm, linesFrom]
  by_cases h : lastLine s.toList = [] <;> simp [h]

theorem getLast?_lines {s : String} (h : lastLine s.toList ≠ []) :
    (lines s).getLast? = some (String.ofList (lastLine s.toList)) := by
  obtain ⟨complete, -, hlines⟩ := linesFrom_append s.toList []
  rw [List.append_nil] at hlines
  rw [lines, hlines, linesFrom, if_neg (by simpa using h), List.reverse_reverse, List.map_append,
    List.map_singleton, List.getLast?_concat]

theorem lineBreak_notMem_linesFrom {cs acc line : List Char} (h : line ∈ linesFrom cs acc)
    (hacc : '\n' ∉ acc) : '\n' ∉ line := by
  induction cs generalizing acc with
  | nil =>
    rw [linesFrom] at h
    split at h
    · cases h
    · rw [List.mem_singleton.mp h, List.mem_reverse]
      exact hacc
  | cons c cs ih =>
    rw [linesFrom] at h
    by_cases hc : c = '\n'
    · rw [if_pos hc] at h
      rcases List.mem_cons.mp h with rfl | h
      · intro hmem
        rw [dropCarriageReturn] at hmem
        split at hmem
        · exact hacc (List.mem_reverse.mp (List.dropLast_subset _ hmem))
        · exact hacc (List.mem_reverse.mp hmem)
      · exact ih h List.not_mem_nil
    · rw [if_neg hc] at h
      exact ih h (by simp [Ne.symm hc, hacc])

theorem lineBreak_notMem_line? {s line : String} {number : Nat} (h : line? s number = some line) :
    '\n' ∉ line.toList := by
  cases number with
  | zero => cases h
  | succ n =>
    obtain ⟨cs, hcs, rfl⟩ := List.mem_map.mp (List.mem_of_getElem? h)
    rw [String.toList_ofList]
    exact lineBreak_notMem_linesFrom hcs List.not_mem_nil

end Scriptlet.Text
