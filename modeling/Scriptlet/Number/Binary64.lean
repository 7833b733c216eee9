/-! # Binary64 numbers as exact values

Every finite number of the language is a natural significand times a power of two, with a sign.
`Parts.ofFloat` reads these parts off the bits of a `Float`, and `Float.ofSignificand` puts
them together again. The rules on numbers that must be exact (their text, whole counts, remainders)
are stated on the parts in natural-number arithmetic.
-/

namespace Scriptlet.Number

/-- What a binary64 number is: not a number, an infinity, or `significand * 2 ^ exponent` with a
sign. -/
inductive Parts where
  | nan
  | infinite (negative : Bool)
  | finite (negative : Bool) (significand : Nat) (exponent : Int)
deriving DecidableEq

/-- The exponent of the least positive number, `2 ^ (-1074)`. -/
def minExponent : Int := -1074

-- Powers are `Nat.pow` by name, as `^` means the power of a monoid once Mathlib is imported.
/-- The least significand of a number that uses all 53 bits. -/
def hiddenBit : Nat := Nat.pow 2 52

/-- The parts that a pattern of 64 bits stands for: one sign bit, eleven exponent bits, 52 bits of
fraction. -/
def Parts.ofBits (bits : Nat) : Parts :=
  let negative := bits / Nat.pow 2 63 % 2 == 1
  let biased := bits / Nat.pow 2 52 % Nat.pow 2 11
  let fraction := bits % Nat.pow 2 52
  if biased = 2047 then
    if fraction = 0 then .infinite negative else .nan
  else if biased = 0 then
    .finite negative fraction minExponent
  else
    .finite negative (hiddenBit + fraction) (minExponent + (biased - 1 : Nat))

/-- The parts of a number. -/
def Parts.ofFloat (x : Float) : Parts :=
  .ofBits x.toBits.toNat

/-- The pattern of `significand * 2 ^ exponent` for a significand below `2 ^ 53` and an exponent not
below that of the least number: the significand is shifted up until it fills 53 bits or the exponent
is the least one. -/
def bitsOfSignificand (significand : Nat) (exponent : Int) : Nat :=
  let room := min (52 - significand.log2) (exponent - minExponent).toNat
  let shifted := significand * Nat.pow 2 room
  let biased := (exponent - minExponent).toNat - room
  if shifted < hiddenBit then shifted else (biased + 1) * Nat.pow 2 52 + (shifted - hiddenBit)

/-- The number `significand * 2 ^ exponent` with a sign, for a significand below `2 ^ 53`. -/
def ofSignificand (negative : Bool) (significand : Nat) (exponent : Int) : Float :=
  let magnitude := bitsOfSignificand significand exponent
  Float.ofBits (UInt64.ofNat (if negative then Nat.pow 2 63 + magnitude else magnitude))

/-- The value that is not a number. -/
def nan : Float := Float.ofBits 0x7ff8000000000000

/-- The number written with the given decimal digits, the last `places` of them after the point:
the binary64 value nearest to `digits / 10 ^ places`, a tie going to the even significand. -/
def ofDecimal (digits places : Nat) : Float :=
  .ofModel (.ofScientific digits (-(places : Int)))

end Scriptlet.Number
