import Mathlib.Data.List.Induction
import Scriptlet.Position
import Scriptlet.Text.Slice

/-! # Places in a text, given by the text before them

A place in a text is known by what stands before it: `Text.byteLength` gives its byte offset and
`Position.after` its line and column. A cursor that has read some text stands at the place after
that text (`Cursor.advance_start`), and cutting a text at two such offsets gives back what stands
between them (`sliceBytes?_append`).
-/

namespace Scriptlet

namespace Text

/-- The number of bytes of a text. -/
def byteLength : List Char → Nat
  | [] => 0
  | c :: cs => c.utf8Size + byteLength cs

@[simp] theorem byteLength_nil : byteLength [] = 0 := rfl

@[simp] theorem byteLength_cons (c : Char) (cs : List Char) :
    byteLength (c :: cs) = c.utf8Size + byteLength cs := rfl

/-- Lengths in bytes add up along a text. -/
@[simp] theorem byteLength_append (cs ds : List Char) :
    byteLength (cs ++ ds) = byteLength cs + byteLength ds := by
  induction cs with
  | nil => simp
  | cons c cs ih => simp [ih, Nat.add_assoc]

theorem byteLength_pos {cs : List Char} (h : cs ≠ []) : 0 < byteLength cs := by
  obtain ⟨c, cs, rfl⟩ := List.exists_cons_of_ne_nil h
  rw [byteLength_cons]
  exact Nat.add_pos_left c.utf8Size_pos _

/-- The number of bytes that a string takes. -/
theorem byteLength_toList (s : String) : byteLength s.toList = s.utf8ByteSize := by
  have hofList (cs : List Char) : byteLength cs = (String.ofList cs).utf8ByteSize := by
    induction cs with
    | nil => simp
    | cons c cs ih =>
      have hsplit : String.ofList (c :: cs) = String.singleton c ++ String.ofList cs := by
        rw [String.singleton_eq_ofList, ← String.ofList_append]
        rfl
      rw [byteLength_cons, ih, hsplit, String.utf8ByteSize_append, String.utf8ByteSize_singleton]
  rw [hofList, String.ofList_toList]

/-- Dropping the bytes of a first part leaves the second: the cut is between characters. -/
theorem dropBytes?_append (before rest : List Char) :
    dropBytes? (byteLength before) (before ++ rest) = some rest := by
  induction before with
  | nil => simp [dropBytes?]
  | cons c before ih =>
    obtain ⟨n, hn⟩ := Nat.exists_eq_add_of_lt (byteLength_pos (List.cons_ne_nil c before))
    rw [Nat.zero_add] at hn
    rw [hn, List.cons_append, dropBytes?, ← hn, byteLength_cons, if_pos (Nat.le_add_right _ _),
      Nat.add_sub_cancel_left, ih]

/-- Taking the bytes of a first part takes it. -/
theorem takeBytes?_append (between rest : List Char) :
    takeBytes? (byteLength between) (between ++ rest) = some between := by
  induction between with
  | nil => simp [takeBytes?]
  | cons c between ih =>
    obtain ⟨n, hn⟩ := Nat.exists_eq_add_of_lt (byteLength_pos (List.cons_ne_nil c between))
    rw [Nat.zero_add] at hn
    rw [hn, List.cons_append, takeBytes?, ← hn, byteLength_cons, if_pos (Nat.le_add_right _ _),
      Nat.add_sub_cancel_left, ih, Option.map_some]

/-- Between two places of a text stands what the text has there. -/
theorem sliceBytes?_append (before between rest : List Char) :
    sliceBytes? (byteLength before) (byteLength (before ++ between)) (before ++ between ++ rest) =
      some between := by
  rw [sliceBytes?, byteLength_append, if_pos (Nat.le_add_right _ _), List.append_assoc,
    dropBytes?_append, Option.bind_some, Nat.add_sub_cancel_left, takeBytes?_append]

/-- The bytes between two places of a text are the text between them. -/
theorem sliceBytes_append {s : String} {before between rest : List Char}
    (h : s.toList = before ++ between ++ rest) :
    sliceBytes (byteLength before) (byteLength (before ++ between)) s = String.ofList between := by
  rw [sliceBytes, h, sliceBytes?_append]

/-- The characters after the last line break of a text. -/
def lastLine (cs : List Char) : List Char :=
  (cs.reverse.takeWhile (· != '\n')).reverse

@[simp] theorem lastLine_nil : lastLine [] = [] := rfl

/-- A line break starts a new line, and any other character is added to the last one. -/
theorem lastLine_concat (cs : List Char) (c : Char) :
    lastLine (cs ++ [c]) = if c = '\n' then [] else lastLine cs ++ [c] := by
  rw [lastLine, List.reverse_append, List.reverse_singleton, List.singleton_append]
  by_cases h : c = '\n'
  · rw [if_pos h, List.takeWhile_cons_of_neg (by simp [h]), List.reverse_nil]
  · rw [if_neg h, List.takeWhile_cons_of_pos (by simp [h]), List.reverse_cons, lastLine]

theorem lastLine_suffix (cs : List Char) : lastLine cs <:+ cs := by
  have hprefix : cs.reverse.takeWhile (· != '\n') <+: cs.reverse := List.takeWhile_prefix _
  have hsuffix := List.reverse_suffix.mpr hprefix
  rwa [List.reverse_reverse] at hsuffix

end Text

/-- The position of the character that comes after a text: one line for each line break in it, and
one column for each character after the last of them. -/
def Position.after (before : List Char) : Position where
  line := 1 + before.count '\n'
  column := 1 + (Text.lastLine before).length

theorem Position.line_after_pos (before : List Char) : 1 ≤ (Position.after before).line :=
  Nat.le_add_right _ _

theorem Position.column_after_pos (before : List Char) : 1 ≤ (Position.after before).column :=
  Nat.le_add_right _ _

/-- Lines and columns count from one, so no place in a text is nowhere. -/
theorem Position.after_ne_nowhere (before : List Char) : Position.after before ≠ .nowhere := by
  intro h
  have hline := line_after_pos before
  rw [h] at hline
  cases hline

/-- The position moves on by one column, or to the start of the next line. -/
theorem Position.after_concat (before : List Char) (c : Char) :
    Position.after (before ++ [c]) =
      if c = '\n' then ⟨(Position.after before).line + 1, 1⟩
      else ⟨(Position.after before).line, (Position.after before).column + 1⟩ := by
  by_cases h : c = '\n' <;> simp [Position.after, Text.lastLine_concat, h, Nat.add_assoc]

/-- A cursor that has read a text stands after it. -/
theorem Cursor.advance_start (before : List Char) :
    Cursor.start.advance before = ⟨Position.after before, Text.byteLength before⟩ := by
  induction before using List.reverseRecOn with
  | nil => rfl
  | append_singleton before c ih =>
    rw [Cursor.advance_append, ih, Cursor.advance_cons, Cursor.advance_nil, Position.after_concat]
    simp [Cursor.step]

end Scriptlet
