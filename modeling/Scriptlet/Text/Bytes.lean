/-! # Lines of bytes

Input arrives as bytes and is cut into lines before it is known to be text. A line ends with its
line feed, which belongs to it; the last line may lack one.
-/

namespace Scriptlet.Text

/-- The lines of `bytes`, where `line` holds those of the current line read so far, last one
first. -/
def byteLinesFrom : List UInt8 → List UInt8 → List (List UInt8)
  | [], line => if line.isEmpty then [] else [line.reverse]
  | b :: bs, line =>
    if b = 10 then (b :: line).reverse :: byteLinesFrom bs [] else byteLinesFrom bs (b :: line)

/-- The lines of a sequence of bytes. -/
def byteLines (bytes : ByteArray) : List ByteArray :=
  (byteLinesFrom bytes.toList []).map fun line => ⟨line.toArray⟩

end Scriptlet.Text
