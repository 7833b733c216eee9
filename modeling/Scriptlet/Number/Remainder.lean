import Scriptlet.Number.Binary64

/-! # Remainders

The remainder of a division of numbers has the sign of the dividend and is exact: both operands are
multiples of one power of two, so the remainder of their multiples is the answer, and it never
needs more bits than an operand has.
-/

namespace Scriptlet.Number

/-- The remainder of dividing `a * 2 ^ p` by `b * 2 ^ q`, as a significand and an exponent. -/
def remainderParts (a : Nat) (p : Int) (b : Nat) (q : Int) : Nat × Int :=
  let e := min p q
  (a * Nat.pow 2 (p - e).toNat % (b * Nat.pow 2 (q - e).toNat), e)

/-- The remainder of a truncating division. An infinite dividend or a zero divisor has none, and an
infinite divisor leaves the dividend as it is. -/
def remainder (x y : Float) : Float :=
  match Parts.ofFloat x, Parts.ofFloat y with
  | .nan, _ | _, .nan | .infinite _, _ => nan
  | .finite .., .infinite _ => x
  | .finite negative a p, .finite _ b q =>
    if b = 0 then nan
    else
      let r := remainderParts a p b q
      ofSignificand negative r.1 r.2

end Scriptlet.Number
