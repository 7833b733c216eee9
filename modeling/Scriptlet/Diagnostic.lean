import Scriptlet.Error
import Scriptlet.Text.Lines

/-! # Diagnostics

A diagnostic shows an error to a reader: what it is, where it stands, the line of the source with a
caret under the column, and the message. A position outside the source has no line to show.
-/

namespace Scriptlet

/-- An error together with the name and the text of the source it is about. -/
structure Diagnostic where
  error : Error
  origin : String
  source : String

namespace Diagnostic

/-- The line of the source that the error stands on. -/
def sourceLine? (d : Diagnostic) : Option String :=
  Text.line? d.source d.error.pos.line

/-- A run of blanks. -/
def blanks (n : Nat) : String :=
  String.ofList (List.replicate n ' ')

/-- The blanks under a line number. -/
def margin (d : Diagnostic) : String :=
  blanks (toString d.error.pos.line).length

/-- The source line with its number, and below it the caret under the column. -/
def excerpt (d : Diagnostic) : String :=
  match d.sourceLine? with
  | some line =>
    toString d.error.pos.line ++ " | " ++ line ++ "\n" ++
      d.margin ++ " | " ++ blanks (d.error.pos.column - 1) ++ "^\n"
  | none => ""

/-- The diagnostic as text, without a line break at its end. -/
def text (d : Diagnostic) : String :=
  "error[E" ++ toString d.error.code ++ "]: " ++ d.error.category.text ++ " - " ++
    d.error.description ++ "\n  --> " ++ d.origin ++ ":" ++ d.error.pos.text ++ "\n" ++
    d.margin ++ " |\n" ++ d.excerpt ++ d.margin ++ " | " ++ d.error.message

end Diagnostic

end Scriptlet
