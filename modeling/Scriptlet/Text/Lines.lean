/-! # Lines of a text

A line ends at a line feed, and one carriage return right before the line feed belongs to the line
break. What follows the last line feed is a line only if it is not empty, and it keeps a carriage
return at its end.
-/

namespace Scriptlet.Text

/-- A line without the carriage return of its line break. -/
def dropCarriageReturn (line : List Char) : List Char :=
  if line.getLast? = some '\r' then line.dropLast else line

/-- The lines of the characters `cs`, where `line` holds those of the current line read so far, last
one first. -/
def linesFrom : List Char → List Char → List (List Char)
  | [], line => if line.isEmpty then [] else [line.reverse]
  | c :: cs, line =>
    if c = '\n' then dropCarriageReturn line.reverse :: linesFrom cs []
    else linesFrom cs (c :: line)

/-- The lines of a text. -/
def lines (s : String) : List String :=
  (linesFrom s.toList []).map String.ofList

/-- The line with the given number, counted from one. -/
def line? (s : String) (number : Nat) : Option String :=
  match number with
  | 0 => none
  | n + 1 => (lines s)[n]?

end Scriptlet.Text
