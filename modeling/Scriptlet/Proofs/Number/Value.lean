import Mathlib
import Scriptlet.Number.Count
import Scriptlet.Proofs.Number.Pattern

/-! # The exact values of numbers

Every finite number stands for a rational number, and a count is a number that stands for a natural
number up to the largest count (`IsCount`). The literal of such a natural number stands for it
(`isCount_ofDecimal`), and the literal of a larger one, though it is rounded, stands for no count
(`not_isCount_ofDecimal`).
-/

namespace Scriptlet.Number

/-- The rational number that the parts of a number stand for, if they are finite. -/
def Parts.value? : Parts → Option ℚ
  | .finite negative m e => some ((if negative then -1 else 1) * m * 2 ^ e)
  | _ => none

/-- The rational number that a number stands for, if it is finite. -/
def value? (x : Float) : Option ℚ :=
  (Parts.ofFloat x).value?

/-- A number that stands for a natural number not above the largest count. -/
def IsCount (x : Float) (n : Nat) : Prop :=
  value? x = some (n : ℚ) ∧ n ≤ maxCount

/-- A sign in front of a magnitude gives a natural number only if the magnitude is that number, and
zero under a minus sign. -/
theorem signed_eq_natCast_iff (negative : Bool) (q : ℚ) (hq : 0 ≤ q) (n : Nat) :
    (if negative then -1 else 1) * q = n ↔ q = n ∧ (negative = false ∨ n = 0) := by
  have hn : (0 : ℚ) ≤ n := Nat.cast_nonneg n
  cases negative with
  | false => simp
  | true =>
    simp only [if_true, neg_mul, one_mul, Bool.true_eq_false, false_or]
    constructor
    · intro h
      have hzero : (n : ℚ) = 0 := by linarith
      exact ⟨by linarith, by exact_mod_cast hzero⟩
    · rintro ⟨rfl, rfl⟩
      simp

/-- A full significand with a positive exponent stands for more than the largest count. -/
theorem maxCount_lt_of_value_eq {m n : Nat} {e : Int} (hlow : 2 ^ 52 ≤ m) (he : 0 < e)
    (h : (m : ℚ) * 2 ^ e = n) : maxCount < n := by
  obtain ⟨k, rfl⟩ : ∃ k : Nat, e = ((k + 1 : Nat) : Int) := ⟨(e - 1).toNat, by omega⟩
  have hlarge : 2 ^ 53 ≤ m * 2 ^ (k + 1) := by
    calc 2 ^ 53 = 2 ^ 52 * 2 ^ 1 := by norm_num
      _ ≤ m * 2 ^ (k + 1) := Nat.mul_le_mul hlow (Nat.pow_le_pow_right (by omega) (by omega))
  have hnatural : m * 2 ^ (k + 1) = n := by
    rw [zpow_natCast] at h
    exact_mod_cast h
  rw [maxCount, Nat.pow_eq]
  omega

/-! ## Literals of natural numbers

A literal without decimal places is the product of its digits with one, rounded to 53 bits. A
natural number below `2 ^ 53` is shifted up to fill these bits, so that nothing is rounded away.
-/

open Float.Model Float.Model.UnpackedFloat

/-- Shifting out bits that are all zero is exact. -/
theorem shiftRight_mul_two_pow (m k : Nat) :
    (⟨m * 2 ^ k, false, false⟩ : ExtendedMantissa) >>> k = ⟨m, false, false⟩ := by
  change Nat.repeat ExtendedMantissa.shiftRightOne k _ = _
  induction k generalizing m with
  | zero => simp [Nat.repeat]
  | succ k ih =>
    have hsplit : m * 2 ^ (k + 1) = 2 * m * 2 ^ k := by ring
    rw [Nat.repeat, hsplit, ih]
    simp [ExtendedMantissa.shiftRightOne]

/-- A significand is moved to its target exponent without loss if the bits above the target are all
it has. -/
theorem shiftToTargetExponent_mul_two_pow (m k : Nat) (e : Int)
    (hk : Format.binary64.targetExponent (totalExponent (m * 2 ^ k) e) = e + k) :
    shiftToTargetExponent .binary64 (m * 2 ^ k) e .exact = (⟨m, false, false⟩, e + k) := by
  rw [shiftToTargetExponent, hk, shiftToExponent]
  have hamount : (e + k - e).toNat = k := by omega
  rw [hamount, ExtendedMantissa.ofMantissaAndAccuracy, shiftRight_mul_two_pow]

/-- A significand of at most 53 bits that is full, or whose exponent is the least one, stays where it
is. -/
theorem shiftToTargetExponent_self {m : Nat} {e : Int} (hm : m ≠ 0) (hlt : m < 2 ^ 53)
    (hmin : minExponent ≤ e) (hfull : 2 ^ 52 ≤ m ∨ e = minExponent) :
    shiftToTargetExponent .binary64 m e .exact = (⟨m, false, false⟩, e) := by
  have htarget : Format.binary64.targetExponent (totalExponent (m * 2 ^ 0) e) = e + (0 : Nat) := by
    have hlog : m.log2 < 53 := (Nat.log2_lt hm).mpr hlt
    rw [pow_zero, mul_one, totalExponent]
    simp only [Format.targetExponent, Format.mantissaBits, Format.minExponent]
    rw [minExponent] at hmin hfull
    rcases hfull with hlow | rfl
    · have hlog' : 52 ≤ m.log2 := (Nat.le_log2 hm).mpr hlow
      omega
    · omega
  simpa using shiftToTargetExponent_mul_two_pow m 0 e htarget

/-- A number whose exponent is too large is packed as infinity. -/
theorem ofFloat_pack_infinite (m : Nat) (e : Int) (hm : 0 < m) (he : 971 < e) :
    Parts.ofFloat (.ofModel (.pack (.finite .positive m e hm))) = .infinite false := by
  show Parts.ofBits (UnpackedFloat.pack .binary64 (.finite .positive m e hm)).toNat = _
  have hlarge : 2 ^ 11 ≤ (e + Format.binary64.exponentBias
      + Format.binary64.mantissaBitsWithoutImplicit).toNat + 1 := by
    simp only [Format.exponentBias]
    omega
  rw [UnpackedFloat.pack, if_pos hlarge]
  decide

/-- Every factor of two makes a number one bit longer. -/
theorem log2_mul_two_pow (n k : Nat) (hn : n ≠ 0) : (n * 2 ^ k).log2 = n.log2 + k := by
  refine (Nat.log2_eq_iff (Nat.mul_ne_zero hn (by positivity))).mpr ⟨?_, ?_⟩
  · rw [pow_add]
    exact Nat.mul_le_mul_right _ (Nat.log2_self_le hn)
  · rw [show n.log2 + k + 1 = n.log2 + 1 + k by omega, pow_add]
    exact Nat.mul_lt_mul_of_pos_right Nat.lt_log2_self (by positivity)

/-- A literal without decimal places is its digits and 53 more bits, rounded. -/
theorem ofScientific_whole (n : Nat) (hne : n ≠ 0) :
    UnpackedFloat.ofScientific .binary64 n 0
      = roundWithAccuracy .binary64 .positive (n * 2 ^ 53) (-53) .exact := by
  have hfactor : n <<< Format.binary64.mantissaBits * 10 ^ (0 : Int).toNat = n * 2 ^ 53 := by
    rw [Nat.shiftLeft_eq]
    norm_num [Format.mantissaBits]
  have hexponent : (-(Format.binary64.mantissaBits : Int) + 0) = -53 := by
    norm_num [Format.mantissaBits]
  rw [UnpackedFloat.ofScientific, dif_neg hne, if_neg (by norm_num), if_neg (by norm_num),
    if_pos (le_refl 0), UnpackedFloat.mul, hfactor, hexponent]
  rfl

/-- The digits of a literal and 53 more bits are shifted down by one bit more than the digits are
long. -/
theorem shiftToTargetExponent_whole (n : Nat) (hne : n ≠ 0) :
    shiftToTargetExponent .binary64 (n * 2 ^ 53) (-53) .exact
      = ((⟨n * 2 ^ 53, false, false⟩ : ExtendedMantissa) >>> (n.log2 + 1), (n.log2 : Int) - 52) := by
  have htarget : Format.binary64.targetExponent (totalExponent (n * 2 ^ 53) (-53))
      = (n.log2 : Int) - 52 := by
    rw [totalExponent, log2_mul_two_pow n 53 hne]
    simp only [Format.targetExponent, Format.mantissaBits, Format.minExponent]
    omega
  have hamount : ((n.log2 : Int) - 52 - -53).toNat = n.log2 + 1 := by omega
  rw [shiftToTargetExponent, htarget, shiftToExponent, hamount,
    ExtendedMantissa.ofMantissaAndAccuracy]
  exact Prod.ext_iff.mpr ⟨rfl, by push_cast; omega⟩

/-- A natural number of at most 53 bits fills its significand with `room` more bits. -/
theorem canonical_natural (n room : Nat) (hne : n ≠ 0) (hroom : n.log2 + room = 52) :
    Canonical (n * 2 ^ room) (-(room : Int)) := by
  have hfull : (n * 2 ^ room).log2 = 52 := by rw [log2_mul_two_pow n room hne, hroom]
  have hpos : 0 < n * 2 ^ room := Nat.mul_pos (Nat.pos_of_ne_zero hne) (by positivity)
  obtain ⟨hlow, hhigh⟩ := (Nat.log2_eq_iff hpos.ne').mp hfull
  exact ⟨hhigh, by rw [minExponent]; omega, by omega, .inl hlow⟩

/-- The literal of a natural number `n` of at most 53 bits is not rounded: `room` more bits fill
its significand. -/
theorem ofScientific_natural (n room : Nat) (hne : n ≠ 0) (hroom : n.log2 + room = 52)
    (hpos : 0 < n * 2 ^ room) :
    UnpackedFloat.ofScientific .binary64 n 0
      = .finite .positive (n * 2 ^ room) (-(room : Int)) hpos := by
  have hsplit : n * 2 ^ 53 = n * 2 ^ room * 2 ^ (n.log2 + 1) := by
    rw [mul_assoc, ← pow_add]
    congr 2
    omega
  have hexponent : (n.log2 : Int) - 52 = -(room : Int) := by omega
  obtain ⟨hlt, hmin, -, hfull⟩ := canonical_natural n room hne hroom
  have hsecond := shiftToTargetExponent_self hpos.ne' hlt hmin hfull
  rw [ofScientific_whole n hne, roundWithAccuracy, shiftToTargetExponent_whole n hne, hsplit,
    shiftRight_mul_two_pow, hexponent]
  simp only [ExtendedMantissa.roundedMantissa, ExtendedMantissa.accuracy,
    Accuracy.roundToNearestEven, hsecond]
  rw [dif_neg (by omega)]

/-- The literal of a natural number of at most 53 bits has the number itself as its significand, up
to the zeros that fill the 53 bits. -/
theorem ofFloat_ofDecimal (n room : Nat) (hne : n ≠ 0) (hroom : n.log2 + room = 52) :
    Parts.ofFloat (ofDecimal n 0) = .finite false (n * 2 ^ room) (-(room : Int)) := by
  have hpos : 0 < n * 2 ^ room := Nat.mul_pos (Nat.pos_of_ne_zero hne) (by positivity)
  rw [ofDecimal]
  change Parts.ofFloat (.ofModel (.pack (UnpackedFloat.ofScientific .binary64 n 0))) = _
  rw [ofScientific_natural n room hne hroom hpos, ← unpackedFinite_of_pos]
  exact ofFloat_pack .positive (canonical_natural n room hne hroom)

/-- The literal of a natural number up to the largest count stands for that number. -/
theorem isCount_ofDecimal (n : Nat) (hn : n ≤ maxCount) : IsCount (ofDecimal n 0) n := by
  have hlt : n < 2 ^ 53 := by
    rw [maxCount, Nat.pow_eq] at hn
    omega
  refine ⟨?_, hn⟩
  rcases eq_or_ne n 0 with rfl | hne
  · have hparts : Parts.ofFloat (ofDecimal 0 0) = .finite false 0 minExponent := by decide
    rw [value?, hparts, Parts.value?]
    simp
  · have hlog : n.log2 < 53 := (Nat.log2_lt hne).mpr hlt
    obtain ⟨room, hroom⟩ : ∃ room, n.log2 + room = 52 := ⟨52 - n.log2, by omega⟩
    rw [value?, ofFloat_ofDecimal n room hne hroom, Parts.value?, zpow_neg, zpow_natCast]
    push_cast
    field_simp

/-! ## Literals beyond the largest count

A longer literal loses its lowest bits, and its significand may be rounded up. The exponent stays at
least as large as the digits ask for, so the literal of a natural number beyond the largest count
stands for another such number, or for infinity.
-/

theorem mantissa_shiftRight (em : ExtendedMantissa) (k : Nat) :
    (em >>> k).mantissa = em.mantissa / 2 ^ k := by
  show (Nat.repeat ExtendedMantissa.shiftRightOne k em).mantissa = _
  induction k with
  | zero => simp [Nat.repeat]
  | succ k ih =>
    rw [Nat.repeat, ExtendedMantissa.shiftRightOne, ih, Nat.div_div_eq_div_mul, pow_succ]

/-- Rounding adds at most one. -/
theorem roundedMantissa_bounds (em : ExtendedMantissa) :
    em.mantissa ≤ em.roundedMantissa ∧ em.roundedMantissa ≤ em.mantissa + 1 := by
  obtain ⟨m, round, sticky⟩ := em
  cases round <;> cases sticky <;>
    simp only [ExtendedMantissa.roundedMantissa, ExtendedMantissa.accuracy,
      Accuracy.roundToNearestEven] <;> omega

/-- A significand that has been rounded up to one bit too many is shifted once more. -/
theorem shiftToTargetExponent_carry (r : Nat) (e : Int) (hlow : 2 ^ 52 ≤ r) (hhigh : r ≤ 2 ^ 53)
    (he : -1074 ≤ e) :
    ∃ m e', shiftToTargetExponent .binary64 r e .exact = (⟨m, false, false⟩, e') ∧
      2 ^ 52 ≤ m ∧ m < 2 ^ 53 ∧ e ≤ e' := by
  rcases Nat.lt_or_eq_of_le hhigh with hlt | rfl
  · exact ⟨r, e, shiftToTargetExponent_self (by omega) hlt he (.inl hlow), hlow, hlt, le_refl e⟩
  · have htarget : Format.binary64.targetExponent (totalExponent (2 ^ 52 * 2 ^ 1) e)
        = e + (1 : Nat) := by
      rw [← pow_add, totalExponent, Nat.log2_two_pow]
      simp only [Format.targetExponent, Format.mantissaBits, Format.minExponent]
      omega
    refine ⟨2 ^ 52, e + 1, ?_, by norm_num, by norm_num, by omega⟩
    simpa using shiftToTargetExponent_mul_two_pow (2 ^ 52) 1 e htarget

/-- The literal of a natural number has a full significand, and an exponent that leaves room for all
bits of the number. -/
theorem ofScientific_rounded (n : Nat) (hne : n ≠ 0) :
    ∃ m e hm, UnpackedFloat.ofScientific .binary64 n 0 = .finite .positive m e hm ∧
      2 ^ 52 ≤ m ∧ m < 2 ^ 53 ∧ (n.log2 : Int) - 52 ≤ e := by
  generalize hem : (⟨n * 2 ^ 53, false, false⟩ : ExtendedMantissa) >>> (n.log2 + 1) = em
  have hmantissa : em.mantissa = n * 2 ^ 53 / 2 ^ (n.log2 + 1) := by
    rw [← hem, mantissa_shiftRight]
  have hlow : 2 ^ 52 ≤ em.mantissa := by
    rw [hmantissa, Nat.le_div_iff_mul_le (by positivity)]
    calc 2 ^ 52 * 2 ^ (n.log2 + 1) = 2 ^ n.log2 * 2 ^ 53 := by ring
      _ ≤ n * 2 ^ 53 := Nat.mul_le_mul_right _ (Nat.log2_self_le hne)
  have hhigh : em.mantissa < 2 ^ 53 := by
    rw [hmantissa, Nat.div_lt_iff_lt_mul (by positivity), Nat.mul_comm (2 ^ 53)]
    exact Nat.mul_lt_mul_of_pos_right Nat.lt_log2_self (by positivity)
  have hrounded := roundedMantissa_bounds em
  obtain ⟨m, e, hshift, hm, hm', he⟩ := shiftToTargetExponent_carry em.roundedMantissa
    ((n.log2 : Int) - 52) (by omega) (by omega) (by omega)
  have hpos : 0 < m := by omega
  refine ⟨m, e, hpos, ?_, hm, hm', he⟩
  rw [ofScientific_whole n hne, roundWithAccuracy, shiftToTargetExponent_whole n hne, hem]
  simp only [hshift]
  rw [dif_neg hpos.ne']

/-- The literal of a natural number beyond the largest count stands for no count. -/
theorem not_isCount_ofDecimal (n k : Nat) (hn : maxCount < n) : ¬ IsCount (ofDecimal n 0) k := by
  have hle : 2 ^ 53 ≤ n := by
    rw [maxCount, Nat.pow_eq] at hn
    omega
  have hne : n ≠ 0 := by omega
  have hlog : 53 ≤ n.log2 := (Nat.le_log2 hne).mpr hle
  obtain ⟨m, e, hm, hliteral, hlow, hhigh, he⟩ := ofScientific_rounded n hne
  have hparts : Parts.ofFloat (ofDecimal n 0)
      = Parts.ofFloat (.ofModel (.pack (.finite .positive m e hm))) := by
    rw [← hliteral]
    rfl
  rintro ⟨hvalue, hk⟩
  rw [value?, hparts] at hvalue
  by_cases hemax : e ≤ 971
  · have hpacked : Parts.ofFloat (.ofModel (.pack (.finite .positive m e hm)))
        = .finite false m e := by
      rw [← unpackedFinite_of_pos]
      exact ofFloat_pack .positive ⟨hhigh, by rw [minExponent]; omega, hemax, .inl hlow⟩
    have hmagnitude : (0 : ℚ) ≤ m * 2 ^ e := by positivity
    rw [hpacked, Parts.value?, Option.some.injEq, mul_assoc,
      signed_eq_natCast_iff false _ hmagnitude] at hvalue
    exact absurd hk (maxCount_lt_of_value_eq hlow (by omega) hvalue.1).not_ge
  · rw [ofFloat_pack_infinite m e hm (by omega)] at hvalue
    cases hvalue

end Scriptlet.Number
