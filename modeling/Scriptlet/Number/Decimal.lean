import Scriptlet.Number.Binary64

/-! # Numbers as decimal text

A number is written with the fewest decimal digits that read back as the same number, always
positionally. Every finite number stands for an interval of reals that round to it; for one digit,
two digits, and so on up to seventeen, the number's two neighbours on that decimal grid are tried,
and the first grid with a neighbour inside the interval gives the digits. Of two neighbours inside,
the nearer one is taken, and the upper one if both are equally near.
-/

namespace Scriptlet.Number

/-- A positive fraction. -/
structure Ratio where
  num : Nat
  den : Nat

/-- The fraction `n * 2 ^ e`. -/
def Ratio.ofBinary (n : Nat) (e : Int) : Ratio :=
  ⟨n * Nat.pow 2 e.toNat, Nat.pow 2 (-e).toNat⟩

/-- The fraction `n * 10 ^ e`. -/
def Ratio.ofDecimal (n : Nat) (e : Int) : Ratio :=
  ⟨n * Nat.pow 10 e.toNat, Nat.pow 10 (-e).toNat⟩

/-- The reals that round to a number, as fractions: the number itself and the two ends, which belong
to the interval if `closed`. -/
structure Rounding where
  value : Ratio
  low : Ratio
  high : Ratio
  closed : Bool

/-- The interval of `significand * 2 ^ exponent`: half a step up, and half a step down, where the
step down is half as long below a power of two. -/
def Rounding.ofParts (significand : Nat) (exponent : Int) : Rounding where
  value := .ofBinary (4 * significand) (exponent - 2)
  low :=
    if significand = hiddenBit ∧ minExponent < exponent then
      .ofBinary (4 * significand - 1) (exponent - 2)
    else
      .ofBinary (4 * significand - 2) (exponent - 2)
  high := .ofBinary (4 * significand + 2) (exponent - 2)
  closed := significand % 2 == 0

/-- Whether a fraction lies in the interval. -/
def Rounding.contains (r : Rounding) (x : Ratio) : Bool :=
  if r.closed then
    decide (r.low.num * x.den ≤ x.num * r.low.den ∧ x.num * r.high.den ≤ r.high.num * x.den)
  else
    decide (r.low.num * x.den < x.num * r.low.den ∧ x.num * r.high.den < r.high.num * x.den)

/-- The number of places by which decimals are scaled up to be counted as whole digits: the least
positive number has its first digit at place 324. -/
def scalePlaces : Nat := 340

/-- The exponent of ten at the first significant digit of a positive fraction not below
`10 ^ (-scalePlaces)`. -/
def Ratio.leadingPlace (x : Ratio) : Int :=
  ((Nat.toDigits 10 (x.num * Nat.pow 10 scalePlaces / x.den)).length : Int) - 1 - scalePlaces

/-- Digits and the exponent of ten of the last one. -/
structure Digits where
  digits : Nat
  place : Int

/-- The neighbour of the interval's value on the grid of multiples of `10 ^ place`, if one lies in
the interval: the nearer of two, and the upper one if they are equally near. -/
def Rounding.onGrid? (r : Rounding) (place : Int) : Option Digits :=
  let unit := Ratio.ofDecimal 1 place
  -- the value in units of the grid is `num / den`
  let num := r.value.num * unit.den
  let den := r.value.den * unit.num
  let below := num / den
  let above := below + 1
  let belowIn := r.contains (.ofDecimal below place)
  let aboveIn := r.contains (.ofDecimal above place)
  -- twice the value is compared with the sum of its neighbours
  let upperNearer := decide ((below + above) * den ≤ 2 * num)
  if belowIn && !(aboveIn && upperNearer) then some ⟨below, place⟩
  else if aboveIn then some ⟨above, place⟩
  else none

/-- The first grid, from `place` downwards, with a neighbour in the interval. -/
def Rounding.firstHit (r : Rounding) : Nat → Int → Digits
  | 0, place => ⟨r.value.num * Nat.pow 10 (-place).toNat / r.value.den, place⟩
  | more + 1, place =>
    match r.onGrid? place with
    | some d => d
    | none => r.firstHit more (place - 1)

/-- The fewest digits that read back as `significand * 2 ^ exponent`, for a positive significand. -/
def shortest (significand : Nat) (exponent : Int) : Digits :=
  let r := Rounding.ofParts significand exponent
  r.firstHit 17 r.value.leadingPlace

/-- Digits in positional notation: zeros fill the places up to the point, and zeros at the end of
the fraction are not written. -/
def Digits.text (d : Digits) : String :=
  match d.place with
  | .ofNat zeros => String.ofList (Nat.toDigits 10 d.digits ++ List.replicate zeros '0')
  | .negSucc p =>
    let places := p + 1
    let whole := Nat.toDigits 10 (d.digits / Nat.pow 10 places)
    let part := Nat.toDigits 10 (d.digits % Nat.pow 10 places)
    let padded := List.replicate (places - part.length) '0' ++ part
    let fraction := (padded.reverse.dropWhile (· == '0')).reverse
    String.ofList (if fraction.isEmpty then whole else whole ++ '.' :: fraction)

/-- The text of a number: its shortest digits written positionally, a minus sign before any negative
value and before a negative zero. -/
def text (x : Float) : String :=
  match Parts.ofFloat x with
  | .nan => "NaN"
  | .infinite negative => if negative then "-inf" else "inf"
  | .finite negative m e =>
    let magnitude := if m = 0 then "0" else (shortest m e).text
    if negative then "-" ++ magnitude else magnitude

end Scriptlet.Number
