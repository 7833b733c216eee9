/-! # Places in a source text

A `Position` is what a reader is shown: a line and a column, both counted from one, the column in
characters. A `Span` is where a lexeme lies in the text: byte offsets counted from zero. A `Cursor`
carries both while a text is read, and `Cursor.advance` moves it past the characters just read.
-/

namespace Scriptlet

/-- A line and a column of a source text, both counted from one. -/
structure Position where
  line : Nat
  column : Nat
deriving DecidableEq

namespace Position

/-- The position that belongs to no text: before the first line and the first column. -/
def nowhere : Position := ⟨0, 0⟩

/-- A position as messages write it: line and column joined by a colon. -/
def text (p : Position) : String :=
  toString p.line ++ ":" ++ toString p.column

end Position

/-- Byte offsets of a lexeme: the first byte, and one past the last. -/
structure Span where
  start : Nat
  stop : Nat
deriving DecidableEq

/-- How far a text has been read: the position and the byte offset of the next character. -/
structure Cursor where
  position : Position
  offset : Nat
deriving DecidableEq

namespace Cursor

/-- The cursor before the first character of a text. -/
def start : Cursor := ⟨⟨1, 1⟩, 0⟩

/-- The cursor after one more character: a line break starts a new line, any other character
takes one column. -/
def step (k : Cursor) (c : Char) : Cursor where
  position :=
    if c = '\n' then ⟨k.position.line + 1, 1⟩ else ⟨k.position.line, k.position.column + 1⟩
  offset := k.offset + c.utf8Size

/-- The cursor after the given characters. -/
def advance (k : Cursor) (cs : List Char) : Cursor :=
  cs.foldl step k

@[simp] theorem advance_nil (k : Cursor) : k.advance [] = k := rfl

@[simp] theorem advance_cons (k : Cursor) (c : Char) (cs : List Char) :
    k.advance (c :: cs) = (k.step c).advance cs := rfl

theorem advance_append (k : Cursor) (cs ds : List Char) :
    k.advance (cs ++ ds) = (k.advance cs).advance ds := by
  simp [advance, List.foldl_append]

end Cursor

end Scriptlet
