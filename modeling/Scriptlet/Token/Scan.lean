import Scriptlet.Token.Front

/-! # Scanning a text into tokens

`Token.scan` takes a text apart from left to right: trivia is dropped, every lexeme becomes a token
with its place, and the end of the text becomes one last token. The first fault ends the scan.
-/

namespace Scriptlet.Token

/-- A fault and where it stands. -/
structure ScanError where
  fault : Fault
  pos : Position
deriving DecidableEq

/-- The tokens of the text `cs` read from the cursor `k` on, after the tokens `before`, which are
held last one first. -/
def scanFrom (k : Cursor) (cs : List Char) (before : List Token) : Except ScanError (List Token) :=
  match cs with
  | [] => .ok (before.reverse ++ [⟨.endOfFile, k.position, ⟨k.offset, k.offset⟩⟩])
  | c :: cs =>
    match front c cs with
    | .trivia more => scanFrom (k.advance (c :: cs.take more)) (cs.drop more) before
    | .lexeme kind more =>
      let next := k.advance (c :: cs.take more)
      scanFrom next (cs.drop more) (⟨kind, k.position, ⟨k.offset, next.offset⟩⟩ :: before)
    | .fault f => .error ⟨f, k.position⟩
termination_by cs.length
decreasing_by all_goals (simp only [List.length_drop, List.length_cons]; omega)

/-- The tokens of a text. -/
def scan (source : String) : Except ScanError (List Token) :=
  scanFrom .start source.toList []

end Scriptlet.Token
