import Mathlib
import Scriptlet.Number.Count
import Scriptlet.Proofs.Number.Value

/-! # Counts are exact values

The test for a count computes on binary64 numbers: it subtracts the truncated number, compares with
zero and with the largest count, and converts to an integer of 64 bits. Each of these steps is given
in terms of the number's significand and exponent (`isWhole_iff`, `lt_zero_iff`, `maxCount_lt_iff`,
`toNat_toUInt64`), and together they say that the counts are exactly the numbers whose value is a
natural number up to the largest count (`count?_eq_some_iff`).
-/

namespace Scriptlet.Number

open Float.Model Float.Model.UnpackedFloat

/-! ## Numbers put together from their parts -/

/-- A canonical significand and exponent are put together without a shift. -/
theorem ofFloat_ofSignificand (negative : Bool) {m : Nat} {e : Int} (h : Canonical m e) :
    Parts.ofFloat (ofSignificand negative m e) = .finite negative m e := by
  obtain ⟨hlt, hmin, hmax, hfull⟩ := h
  have hroom : min (52 - m.log2) (e - minExponent).toNat = 0 := by
    rcases hfull with hlow | rfl
    · have hlog : 52 ≤ m.log2 := (Nat.le_log2 (by omega)).mpr hlow
      omega
    · omega
  have hnegative : (negative.toNat == 1) = negative := by cases negative <;> rfl
  have hsign : negative.toNat < 2 := negative.toNat_lt
  have hleast : minExponent = -1074 := rfl
  -- the pattern in terms of its three fields
  have hfields : ∃ biased fraction, biased < 2 ^ 11 ∧ fraction < 2 ^ 52 ∧
      bitsOfSignificand m e = biased * 2 ^ 52 + fraction ∧
      Parts.ofFields negative biased fraction = .finite negative m e := by
    simp only [bitsOfSignificand, hroom, hiddenBit, Nat.pow_eq, pow_zero, mul_one, Nat.sub_zero]
    by_cases hlow : m < 2 ^ 52
    · obtain rfl : e = minExponent := hfull.resolve_left (by omega)
      exact ⟨0, m, by norm_num, hlow, by rw [if_pos hlow]; omega, rfl⟩
    · refine ⟨(e - minExponent).toNat + 1, m - 2 ^ 52, by omega, by omega, if_neg hlow, ?_⟩
      rw [Parts.ofFields, if_neg (by omega), if_neg (by omega)]
      simp only [hiddenBit, Nat.pow_eq, Parts.finite.injEq, true_and]
      exact ⟨by omega, by omega⟩
  obtain ⟨biased, fraction, hbiased, hfraction, hbits, hparts⟩ := hfields
  have hpattern : (if negative then Nat.pow 2 63 + bitsOfSignificand m e else bitsOfSignificand m e)
      = negative.toNat * 2 ^ 63 + biased * 2 ^ 52 + fraction := by
    rw [hbits, Nat.pow_eq]
    cases negative with
    | false => simp
    | true => simp [add_assoc]
  rw [ofSignificand]
  simp only [hpattern]
  rw [ofFloat_ofBits, UInt64.toNat_ofNat', Nat.mod_eq_of_lt (by omega),
    ofBits_fields hsign hbiased hfraction, hnegative, hparts]

theorem canonical_zero : Canonical 0 minExponent :=
  ⟨by norm_num, le_refl _, by decide, .inr rfl⟩

/-- Zero is put together with any exponent. -/
theorem ofSignificand_zero (negative : Bool) (e e' : Int) :
    ofSignificand negative 0 e = ofSignificand negative 0 e' := by
  simp [ofSignificand, bitsOfSignificand, hiddenBit]

theorem unpack_ofSignificand (negative : Bool) {m : Nat} {e : Int} (h : m = 0 ∨ Canonical m e) :
    (ofSignificand negative m e).toModel.unpack = unpackedFinite (signOf negative) m e := by
  rcases h with rfl | h
  · rw [ofSignificand_zero negative e minExponent, unpack_toModel,
      ofFloat_ofSignificand _ canonical_zero]
    rfl
  · rw [unpack_toModel, ofFloat_ofSignificand negative h, Parts.unpacked]

/-! ## The fraction of a number -/

/-- The significand without its bits below the point. -/
def wholeSignificand (m : Nat) (e : Int) : Nat :=
  m / 2 ^ (-e).toNat * 2 ^ (-e).toNat

theorem wholeSignificand_le (m : Nat) (e : Int) : wholeSignificand m e ≤ m :=
  Nat.div_mul_le_self m _

theorem wholeSignificand_eq_self_iff (m : Nat) (e : Int) :
    wholeSignificand m e = m ↔ 2 ^ (-e).toNat ∣ m := by
  constructor
  · intro h
    exact ⟨_, by rw [mul_comm]; exact h.symm⟩
  · exact Nat.div_mul_cancel

/-- Clearing the bits below the point leaves the highest bit, or nothing. -/
theorem canonical_wholeSignificand {m : Nat} {e : Int} (h : Canonical m e) :
    wholeSignificand m e = 0 ∨ Canonical (wholeSignificand m e) e := by
  obtain ⟨hlt, hmin, hmax, hfull⟩ := h
  have hle := wholeSignificand_le m e
  by_cases hbelow : m < 2 ^ (-e).toNat
  · exact .inl (by rw [wholeSignificand, Nat.div_eq_of_lt hbelow, zero_mul])
  refine .inr ⟨by omega, hmin, hmax, hfull.imp_left fun hlow => ?_⟩
  have hplaces : (-e).toNat ≤ 52 := by
    by_contra hmore
    have hpow : 2 ^ 53 ≤ 2 ^ (-e).toNat := Nat.pow_le_pow_right (by norm_num) (by omega)
    omega
  have hsplit : 2 ^ 52 = 2 ^ (52 - (-e).toNat) * 2 ^ (-e).toNat := by
    rw [← pow_add]
    congr 1
    omega
  rw [wholeSignificand, hsplit]
  refine Nat.mul_le_mul_right _ ((Nat.le_div_iff_mul_le (by positivity)).mpr ?_)
  rw [← hsplit]
  exact hlow

/-- The truncated number has the sign and the exponent of the number. -/
theorem unpack_trunc {x : Float} {negative : Bool} {m : Nat} {e : Int}
    (h : Parts.ofFloat x = .finite negative m e) :
    (trunc x).toModel.unpack = unpackedFinite (signOf negative) (wholeSignificand m e) e := by
  rw [trunc, h]
  cases e with
  | ofNat e =>
    have hwhole : wholeSignificand m (.ofNat e) = m := by simp [wholeSignificand]
    rw [hwhole, unpack_toModel, h, Parts.unpacked]
  | negSucc e =>
    exact unpack_ofSignificand negative (canonical_wholeSignificand (canonical_of_ofFloat h))

/-- A significand of at most 53 bits is rounded to itself: it is shifted up as far as there is
room. -/
theorem round_exact (s : Sign) {r : Nat} {e : Int} (hpos : 0 < r) (hlt : r < 2 ^ 53)
    (hmin : minExponent ≤ e) (hmax : e ≤ 971) :
    ∃ m t, Canonical m t ∧ m ≠ 0 ∧ UnpackedFloat.round .binary64 s r e = unpackedFinite s m t := by
  have hlog : r.log2 < 53 := (Nat.log2_lt hpos.ne').mpr hlt
  have hleast : minExponent = -1074 := rfl
  have htarget : Format.binary64.targetExponent (totalExponent r e)
      = max ((r.log2 : Int) + e - 52) minExponent := by
    rw [totalExponent]
    simp only [Format.targetExponent, Format.mantissaBits, Format.minExponent]
    omega
  generalize ht : max ((r.log2 : Int) + e - 52) minExponent = t at htarget
  obtain ⟨k, hk⟩ : ∃ k : Nat, e - t = k := ⟨(e - t).toNat, by omega⟩
  have hshifted : (r * 2 ^ k).log2 = r.log2 + k := log2_mul_two_pow r k hpos.ne'
  have hne : r * 2 ^ k ≠ 0 := (Nat.mul_pos hpos (by positivity)).ne'
  have hcanonical : Canonical (r * 2 ^ k) t := by
    refine ⟨(Nat.log2_lt hne).mp (by omega), by omega, by omega, ?_⟩
    by_cases hfull : r.log2 + k = 52
    · exact .inl ((Nat.le_log2 hne).mp (by omega))
    · exact .inr (by omega)
  have hself := shiftToTargetExponent_self hne hcanonical.lt hcanonical.minExponent_le
    hcanonical.full
  have hexponent : e - ((e - t).toNat : Int) = t := by omega
  have hamount : (e - t).toNat = k := by omega
  refine ⟨r * 2 ^ k, t, hcanonical, hne, ?_⟩
  rw [UnpackedFloat.round, htarget, decreaseExponent]
  simp only [hexponent]
  rw [hamount, Nat.shiftLeft_eq, roundWithAccuracy]
  simp only [hself, ExtendedMantissa.roundedMantissa, ExtendedMantissa.accuracy,
    Accuracy.roundToNearestEven]
  rfl

/-- A difference of significands with one sign keeps the sign, if the first is the larger one. -/
theorem normalize_difference (s : Sign) {m w : Nat} (e : Int) (h : w < m) :
    UnpackedFloat.normalize .binary64 (s.apply m - s.apply w) e .positive
      = UnpackedFloat.round .binary64 s (m - w) e := by
  rw [UnpackedFloat.normalize]
  cases s with
  | negative =>
    have hcompare : compare (Sign.negative.apply m - Sign.negative.apply w) 0 = .lt := by
      rw [compare_lt_iff_lt, Sign.apply, Sign.apply]
      omega
    have hmagnitude : (-(Sign.negative.apply m - Sign.negative.apply w)).toNat = m - w := by
      simp only [Sign.apply]
      omega
    simp only [hcompare, hmagnitude]
  | positive =>
    have hcompare : compare (Sign.positive.apply m - Sign.positive.apply w) 0 = .gt := by
      rw [compare_gt_iff_gt, Sign.apply, Sign.apply]
      omega
    have hmagnitude : (Sign.positive.apply m - Sign.positive.apply w).toNat = m - w := by
      simp only [Sign.apply]
      omega
    simp only [hcompare, hmagnitude]

/-- Two numbers of one sign and one exponent have a difference that is not rounded, and it is zero
only if they are the same. -/
theorem sub_unpackedFinite (s : Sign) {m w : Nat} {e : Int} (h : Canonical m e) (hw : w ≤ m) :
    ∃ s' r t, Canonical r t ∧ (r = 0 ↔ w = m) ∧
      UnpackedFloat.sub .binary64 (unpackedFinite s m e) (unpackedFinite s w e)
        = unpackedFinite s' r t := by
  rcases Nat.eq_zero_or_pos m with rfl | hm
  · obtain rfl : w = 0 := by omega
    exact ⟨.positive, 0, minExponent, canonical_zero, by simp, by cases s <;> rfl⟩
  rcases Nat.eq_zero_or_pos w with rfl | hwpos
  · refine ⟨s, m, e, h, by omega, ?_⟩
    rw [unpackedFinite_of_pos s m e hm]
    rfl
  have hsub : UnpackedFloat.sub .binary64 (unpackedFinite s m e) (unpackedFinite s w e)
      = UnpackedFloat.normalize .binary64 (s.apply m - s.apply w) e .positive := by
    have hamount : (e - e).toNat = 0 := by omega
    rw [unpackedFinite_of_pos s m e hm, unpackedFinite_of_pos s w e hwpos, UnpackedFloat.sub]
    simp only [decreaseExponent, min_self, hamount, Nat.shiftLeft_zero]
  rw [hsub]
  rcases Nat.lt_or_eq_of_le hw with hlt | rfl
  · obtain ⟨r, t, hcanonical, hne, hround⟩ := round_exact s (r := m - w) (e := e) (by omega)
      (by have := h.lt; omega) h.minExponent_le h.le_max
    exact ⟨s, r, t, hcanonical, by omega, (normalize_difference s e hlt).trans hround⟩
  · refine ⟨.positive, 0, minExponent, canonical_zero, by simp, ?_⟩
    rw [sub_self]
    rfl

/-- Only zero, of either sign, equals zero. -/
theorem beq_zero_iff (s : Sign) (m : Nat) (e : Int) :
    (unpackedFinite s m e).beq (.zero .positive) = true ↔ m = 0 := by
  rcases Nat.eq_zero_or_pos m with rfl | hm
  · rw [unpackedFinite_zero]
    cases s <;> decide
  · rw [unpackedFinite_of_pos s m e hm]
    cases s <;> simp [UnpackedFloat.beq, UnpackedFloat.compare, hm.ne']

/-- A number is whole if none of its bits stands below the point. -/
theorem isWhole_iff {x : Float} {negative : Bool} {m : Nat} {e : Int}
    (h : Parts.ofFloat x = .finite negative m e) : isWhole x = true ↔ 2 ^ (-e).toNat ∣ m := by
  have hunpack : x.toModel.unpack = unpackedFinite (signOf negative) m e := by
    rw [unpack_toModel, h, Parts.unpacked]
  have hfinite : x.isFinite = true := by
    show x.toModel.unpack.isFinite = true
    rw [hunpack, unpackedFinite]
    split <;> rfl
  obtain ⟨s, r, t, hcanonical, hr, hsub⟩ :=
    sub_unpackedFinite (signOf negative) (canonical_of_ofFloat h) (wholeSignificand_le m e)
  have hfract : (fract x).toModel.unpack = unpackedFinite s r t := by
    show (Float.Model.pack
      (UnpackedFloat.sub .binary64 x.toModel.unpack (trunc x).toModel.unpack)).unpack = _
    rw [hunpack, unpack_trunc h, hsub, unpack_pack s hcanonical]
  have hbeq : (fract x == 0.0) = (fract x).toModel.unpack.beq (.zero .positive) := rfl
  rw [isWhole, hfinite, Bool.true_and, hbeq, hfract, beq_zero_iff, hr,
    wholeSignificand_eq_self_iff]

/-! ## The order to zero and to the largest count -/

theorem float_lt_iff (x y : Float) :
    x < y ↔ x.toModel.unpack.compare y.toModel.unpack = some .lt := by
  have hlt : x < y ↔ decide (x.toModel < y.toModel) = true := Iff.rfl
  rw [hlt, decide_eq_true_iff]
  exact beq_iff_eq

/-- Below zero are the numbers with a minus sign other than zero. -/
theorem lt_zero_iff {x : Float} {negative : Bool} {m : Nat} {e : Int}
    (h : Parts.ofFloat x = .finite negative m e) : x < 0.0 ↔ negative = true ∧ m ≠ 0 := by
  have hzero : (0.0 : Float).toModel.unpack = .zero .positive := rfl
  rw [float_lt_iff, hzero, unpack_toModel, h, Parts.unpacked]
  rcases Nat.eq_zero_or_pos m with rfl | hm
  · simp [UnpackedFloat.compare]
  · rw [unpackedFinite_of_pos _ m e hm]
    cases negative <;> simp [signOf, UnpackedFloat.compare, hm.ne']

/-- The largest count is converted exactly. -/
theorem unpack_maxCount :
    maxCount.toUInt64.toFloat.toModel.unpack = unpackedFinite .positive maxCount 0 := rfl

/-- Above the largest count are the numbers without a minus sign whose bits all stand above the
lowest place before the point. -/
theorem maxCount_lt_iff {x : Float} {negative : Bool} {m : Nat} {e : Int}
    (h : Parts.ofFloat x = .finite negative m e) :
    maxCount.toUInt64.toFloat < x ↔ negative = false ∧ 0 < e := by
  obtain ⟨hlt, -, -, hfull⟩ := canonical_of_ofFloat h
  have hmax : maxCount = 2 ^ 53 - 1 := rfl
  have hleast : minExponent = -1074 := rfl
  rw [float_lt_iff, unpack_maxCount, unpackedFinite_of_pos _ maxCount 0 (by decide), unpack_toModel,
    h, Parts.unpacked]
  rcases Nat.eq_zero_or_pos m with rfl | hm
  · have he : ¬ 0 < e := by omega
    simp [UnpackedFloat.compare, he]
  · rw [unpackedFinite_of_pos _ m e hm]
    cases negative with
    | true => simp [signOf, UnpackedFloat.compare]
    | false =>
      have hcompare : UnpackedFloat.compare (.finite .positive maxCount 0 (by decide))
          (.finite (signOf false) m e hm) = some ((compare 0 e).then (compare maxCount m)) := rfl
      rw [hcompare, Option.some.injEq, Ordering.then_eq_lt, compare_lt_iff_lt, compare_lt_iff_lt,
        compare_eq_iff_eq, eq_self_iff_true, true_and]
      omega

/-! ## The conversion to an integer -/

/-- A number of at most 53 bits is converted by cutting off its fraction. -/
theorem toNat_toUInt64 {x : Float} {negative : Bool} {m : Nat} {e : Int}
    (h : Parts.ofFloat x = .finite negative m e) (hsign : negative = false ∨ m = 0) (he : e ≤ 0) :
    x.toUInt64.toNat = m / 2 ^ (-e).toNat := by
  have hconvert : x.toUInt64
      = .ofNatClamp (x.toModel.unpack.toInt 0 (UInt64.size - 1)).toNat := rfl
  have hlt := (canonical_of_ofFloat h).lt
  have hle : m / 2 ^ (-e).toNat ≤ m := Nat.div_le_self _ _
  have hinteger : (x.toModel.unpack.toInt 0 (UInt64.size - 1)).toNat = m / 2 ^ (-e).toNat := by
    rw [unpack_toModel, h, Parts.unpacked]
    rcases Nat.eq_zero_or_pos m with rfl | hm
    · simp [UnpackedFloat.toInt]
    · obtain rfl : negative = false := hsign.resolve_right hm.ne'
      have hdecrease : decreaseExponent m e 0 = (m, e) := by
        have hamount : (e - 0).toNat = 0 := by omega
        rw [decreaseExponent, hamount]
        simp
      have hamount : (0 - e).toNat = (-e).toNat := by omega
      rw [unpackedFinite_of_pos _ m e hm, UnpackedFloat.toInt, roundToInt, hdecrease]
      simp only [shiftToExponent, mantissa_shiftRight, hamount]
      rfl
  have hsize : m / 2 ^ (-e).toNat < UInt64.size := by
    rw [UInt64.size]
    omega
  rw [hconvert, hinteger, UInt64.ofNatClamp, dif_pos hsize, UInt64.toNat_ofNatLT]

/-! ## Counts -/

/-- A significand with an exponent that is not positive stands for a natural number if it is a
multiple of the power of two that the exponent takes away. -/
theorem mul_zpow_eq_natCast_iff (m : Nat) {e : Int} (he : e ≤ 0) (n : Nat) :
    (m : ℚ) * 2 ^ e = n ↔ m = n * 2 ^ (-e).toNat := by
  obtain ⟨k, rfl⟩ : ∃ k : Nat, e = -(k : Int) := ⟨(-e).toNat, by omega⟩
  rw [zpow_neg, zpow_natCast, ← div_eq_mul_inv, div_eq_iff (by positivity), neg_neg, Int.toNat_natCast]
  exact_mod_cast Iff.rfl

/-- What is not a finite number is no count. -/
theorem count?_eq_none_of_value? {x : Float} (h : value? x = none) : count? x = none := by
  have hfinite : x.isFinite = x.toModel.unpack.isFinite := rfl
  have hwhole : isWhole x = false := by
    rw [value?] at h
    rw [isWhole, hfinite, unpack_toModel]
    cases hparts : Parts.ofFloat x with
    | nan => rfl
    | infinite negative => rfl
    | finite negative m e =>
      rw [hparts] at h
      cases h
  rw [count?, hwhole]
  rfl

/-- The test for a count in terms of the significand and the exponent. -/
theorem count?_eq_some_iff_of_finite {x : Float} {negative : Bool} {m : Nat} {e : Int}
    (h : Parts.ofFloat x = .finite negative m e) (n : Nat) :
    count? x = some n ↔ e ≤ 0 ∧ (negative = false ∨ n = 0) ∧ m = n * 2 ^ (-e).toNat := by
  have hpow : 0 < 2 ^ (-e).toNat := by positivity
  have hleast : minExponent = -1074 := rfl
  have hfull := (canonical_of_ofFloat h).full
  simp only [count?, Bool.or_eq_true, Bool.not_eq_true', decide_eq_true_eq, gt_iff_lt,
    Option.ite_none_left_eq_some, Option.some.injEq, not_or, Bool.not_eq_false, isWhole_iff h,
    lt_zero_iff h, maxCount_lt_iff h]
  constructor
  · rintro ⟨⟨⟨hwhole, hzero⟩, hmax⟩, hn⟩
    have hsign : negative = false ∨ m = 0 := by
      cases negative with
      | false => exact .inl rfl
      | true => exact .inr (by_contra fun hm => hzero ⟨rfl, hm⟩)
    have he : e ≤ 0 := by
      rcases hsign with hnegative | hm
      · by_contra hpos
        exact hmax ⟨hnegative, by omega⟩
      · omega
    rw [toNat_toUInt64 h hsign he] at hn
    refine ⟨he, hsign.imp_right fun hm => ?_, ?_⟩
    · rw [← hn, hm, Nat.zero_div]
    · rw [← hn, Nat.div_mul_cancel hwhole]
  · rintro ⟨he, hsign, hm⟩
    have hsign' : negative = false ∨ m = 0 := hsign.imp_right fun hn => by rw [hm, hn, zero_mul]
    refine ⟨⟨⟨?_, ?_⟩, ?_⟩, ?_⟩
    · exact ⟨n, by rw [hm, mul_comm]⟩
    · rintro ⟨rfl, hne⟩
      exact hne (hsign'.resolve_left Bool.noConfusion)
    · rintro ⟨-, hpos⟩
      omega
    · rw [toNat_toUInt64 h hsign' he, hm, Nat.mul_div_cancel _ hpow]

/-- Counts are the numbers whose exact value is a natural number up to the largest count. -/
theorem count?_eq_some_iff (x : Float) (n : Nat) : count? x = some n ↔ IsCount x n := by
  cases h : Parts.ofFloat x with
  | finite negative m e =>
    obtain ⟨hlt, -, -, hfull⟩ := canonical_of_ofFloat h
    have hmagnitude : (0 : ℚ) ≤ m * 2 ^ e := by positivity
    rw [count?_eq_some_iff_of_finite h, IsCount, value?, h, Parts.value?, Option.some.injEq,
      mul_assoc, signed_eq_natCast_iff negative _ hmagnitude n]
    by_cases he : e ≤ 0
    · have hpow : 0 < 2 ^ (-e).toNat := by positivity
      rw [mul_zpow_eq_natCast_iff m he n]
      constructor
      · rintro ⟨-, hsign, hm⟩
        have hn : n ≤ m := hm ▸ Nat.le_mul_of_pos_right n hpow
        refine ⟨⟨hm, hsign⟩, ?_⟩
        rw [maxCount, Nat.pow_eq]
        omega
      · rintro ⟨⟨hm, hsign⟩, -⟩
        exact ⟨he, hsign, hm⟩
    · have hleast : minExponent = -1074 := rfl
      have hlow : 2 ^ 52 ≤ m := hfull.resolve_right (by omega)
      constructor
      · rintro ⟨hle, -⟩
        exact absurd hle he
      · rintro ⟨⟨hvalue, -⟩, hn⟩
        exact absurd hn (maxCount_lt_of_value_eq hlow (by omega) hvalue).not_ge
  | nan =>
    have hnone : value? x = none := by rw [value?, h]; rfl
    simp [count?_eq_none_of_value? hnone, IsCount, hnone]
  | infinite negative =>
    have hnone : value? x = none := by rw [value?, h]; rfl
    simp [count?_eq_none_of_value? hnone, IsCount, hnone]

theorem count?_eq_none_iff (x : Float) : count? x = none ↔ ∀ n, ¬ IsCount x n := by
  rw [Option.eq_none_iff_forall_ne_some]
  exact forall_congr' fun n => not_congr (count?_eq_some_iff x n)

end Scriptlet.Number
