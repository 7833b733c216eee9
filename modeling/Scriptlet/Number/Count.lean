import Scriptlet.Number.Binary64

/-! # Whole numbers and loop counts

A loop runs a whole number of times, and the count is written as a number literal. Binary64 holds
every natural number up to `2 ^ 53 - 1` next to both of its neighbours, so counts stop there. The
test for a count is made on the number itself: its fraction, its order to zero and to the largest
count as a number, and its conversion to an integer of 64 bits.
-/

namespace Scriptlet.Number

/-- The largest count: beyond it neighbouring natural numbers share one binary64 value. -/
def maxCount : Nat := Nat.pow 2 53 - 1

/-- The number without its fraction, that is rounded toward zero: the bits of the significand below
the point are cleared. Infinities and what is not a number stay as they are. -/
def trunc (x : Float) : Float :=
  match Parts.ofFloat x with
  | .finite negative m (.negSucc e) =>
    ofSignificand negative (m / Nat.pow 2 (e + 1) * Nat.pow 2 (e + 1)) (.negSucc e)
  | _ => x

/-- The fraction of a number. -/
def fract (x : Float) : Float :=
  x - trunc x

/-- Whether a number is finite and has no fraction. -/
def isWhole (x : Float) : Bool :=
  x.isFinite && fract x == 0.0

/-- The number as a count: a whole number from zero to `maxCount`. Zero with a minus sign counts
as zero. -/
def count? (x : Float) : Option Nat :=
  if !isWhole x || x < 0.0 || x > maxCount.toUInt64.toFloat then none else some x.toUInt64.toNat

end Scriptlet.Number
