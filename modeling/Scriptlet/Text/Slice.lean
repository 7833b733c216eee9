/-! # Slices by byte offset

Spans count bytes of a text's UTF-8 form. `sliceBytes` cuts a text at two such offsets and gives
the empty text if an offset falls inside a character or outside the text, or if the two are out of
order.
-/

namespace Scriptlet.Text

/-- The characters from a byte offset on, if a character starts there or the text ends there. -/
def dropBytes? : Nat → List Char → Option (List Char)
  | 0, cs => some cs
  | _ + 1, [] => none
  | n + 1, c :: cs => if c.utf8Size ≤ n + 1 then dropBytes? (n + 1 - c.utf8Size) cs else none

/-- The characters before a byte offset, if a character starts there or the text ends there. -/
def takeBytes? : Nat → List Char → Option (List Char)
  | 0, _ => some []
  | _ + 1, [] => none
  | n + 1, c :: cs =>
    if c.utf8Size ≤ n + 1 then (takeBytes? (n + 1 - c.utf8Size) cs).map (c :: ·) else none

/-- The characters between two byte offsets. -/
def sliceBytes? (start stop : Nat) (cs : List Char) : Option (List Char) :=
  if start ≤ stop then (dropBytes? start cs).bind (takeBytes? (stop - start)) else none

/-- The text between two byte offsets, empty if they do not cut it between characters. -/
def sliceBytes (start stop : Nat) (s : String) : String :=
  match sliceBytes? start stop s.toList with
  | some cs => String.ofList cs
  | none => ""

end Scriptlet.Text
