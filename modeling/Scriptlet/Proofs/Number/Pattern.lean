import Mathlib
import Scriptlet.Number.Binary64

/-! # Patterns of bits

A pattern of 64 bits is made of a sign, a biased exponent and a fraction. A number computes on its
unpacked form, which is that of its parts (`unpack_toModel`), and the significands and exponents that
patterns have are packed and unpacked without loss (`ofFloat_pack`). So every pattern stands for a
number whose parts are those of the pattern (`ofFloat_ofBits`), also where several patterns stand for
what is not a number.
-/

namespace Scriptlet.Number

open Float.Model Float.Model.UnpackedFloat

/-- The parts that a sign, a biased exponent and a fraction stand for. -/
def Parts.ofFields (negative : Bool) (biased fraction : Nat) : Parts :=
  if biased = 2047 then
    if fraction = 0 then .infinite negative else .nan
  else if biased = 0 then
    .finite negative fraction minExponent
  else
    .finite negative (hiddenBit + fraction) (minExponent + (biased - 1 : Nat))

theorem toNat_packComponents (s : Sign) (e : BitVec 11) (f : BitVec 52) :
    (packComponents .binary64 s e f).toNat
      = s.toBitVec.toNat * 2 ^ 63 + e.toNat * 2 ^ 52 + f.toNat := by
  rw [packComponents, BitVec.toNat_append, BitVec.toNat_append,
    ← Nat.shiftLeft_add_eq_or_of_lt e.isLt, ← Nat.shiftLeft_add_eq_or_of_lt f.isLt,
    Nat.shiftLeft_eq, Nat.shiftLeft_eq]
  ring

/-- The three fields of a pattern do not overlap. -/
theorem ofBits_fields {sign biased fraction : Nat} (hs : sign < 2) (hb : biased < 2 ^ 11)
    (hf : fraction < 2 ^ 52) :
    Parts.ofBits (sign * 2 ^ 63 + biased * 2 ^ 52 + fraction)
      = .ofFields (sign == 1) biased fraction := by
  generalize hbits : sign * 2 ^ 63 + biased * 2 ^ 52 + fraction = bits
  have hsign : bits / Nat.pow 2 63 % 2 = sign := by
    rw [Nat.pow_eq]
    omega
  have hbiased : bits / Nat.pow 2 52 % Nat.pow 2 11 = biased := by
    rw [Nat.pow_eq, Nat.pow_eq]
    omega
  have hfraction : bits % Nat.pow 2 52 = fraction := by
    rw [Nat.pow_eq]
    omega
  simp only [Parts.ofBits, hsign, hbiased, hfraction, Parts.ofFields]

theorem ofBits_packComponents (s : Sign) (e : BitVec 11) (f : BitVec 52) :
    Parts.ofBits (packComponents .binary64 s e f).toNat
      = .ofFields (s.toBitVec == 1#1) e.toNat f.toNat := by
  have hnegative : (s.toBitVec.toNat == 1) = (s.toBitVec == 1#1) := by
    cases s <;> rfl
  rw [toNat_packComponents, ofBits_fields s.toBitVec.isLt e.isLt f.isLt, hnegative]

/-- Every pattern is made of the three fields. -/
theorem exists_packComponents (b : BitVec 64) : ∃ s e f, packComponents .binary64 s e f = b := by
  have hb : b.toNat < 2 ^ 64 := b.isLt
  refine ⟨if b.toNat < 2 ^ 63 then .positive else .negative, BitVec.ofNat 11 (b.toNat / 2 ^ 52),
    BitVec.ofNat 52 b.toNat, BitVec.eq_of_toNat_eq ?_⟩
  rw [toNat_packComponents, BitVec.toNat_ofNat, BitVec.toNat_ofNat]
  split
  · simp only [Sign.toBitVec, BitVec.toNat_ofNat]
    omega
  · simp only [Sign.toBitVec, BitVec.toNat_ofNat]
    omega

/-- The sign of a pattern is the first of its fields. -/
theorem sign_packComponents (s : Sign) (e : BitVec 11) (f : BitVec 52) :
    Sign.ofBitVec (unpackSign (packComponents .binary64 s e f)) = s := by
  unfold unpackSign packComponents BitVec.extractLsb
  rw [BitVec.extractLsb'_append_eq_of_le (by decide), BitVec.extractLsb'_append_eq_of_le (by decide)]
  cases s <;> rfl

/-! ## The unpacked form of a pattern -/

/-- The sign of the numbers that are negative, or of those that are not. -/
def signOf (negative : Bool) : Sign :=
  if negative then .negative else .positive

theorem signOf_toBitVec (s : Sign) : signOf (s.toBitVec == 1#1) = s := by
  cases s <;> rfl

/-- The unpacked form of a significand and an exponent, in which zero stands by itself. -/
def unpackedFinite (s : Sign) (m : Nat) (e : Int) : UnpackedFloat :=
  if h : m = 0 then .zero s else .finite s m e (Nat.pos_of_ne_zero h)

@[simp]
theorem unpackedFinite_zero (s : Sign) (e : Int) : unpackedFinite s 0 e = .zero s := rfl

theorem unpackedFinite_of_pos (s : Sign) (m : Nat) (e : Int) (hm : 0 < m) :
    unpackedFinite s m e = .finite s m e hm :=
  dif_neg hm.ne'

/-- The unpacked form of the parts of a number. -/
def Parts.unpacked : Parts → UnpackedFloat
  | .nan => .notANumber
  | .infinite negative => .infinity (signOf negative)
  | .finite negative m e => unpackedFinite (signOf negative) m e

/-- The three fields of a pattern unpack to the form of the parts that they stand for. -/
theorem unpack_packComponents (s : Sign) (e : BitVec 11) (f : BitVec 52) :
    UnpackedFloat.unpack .binary64 (packComponents .binary64 s e f)
      = (Parts.ofFields (s.toBitVec == 1#1) e.toNat f.toNat).unpacked := by
  have hbias : (Format.binary64.exponentBias : Int) = 1023 := by decide
  rw [UnpackedFloat.unpack]
  simp only [unpackMantissa_packComponents, unpackExponent_packComponents, sign_packComponents,
    hbias]
  by_cases hones : e = -1#11
  · subst hones
    have h2047 : (-1#11).toNat = 2047 := by decide
    rw [if_pos rfl, Parts.ofFields, if_pos h2047]
    by_cases hf : f = 0#52
    · rw [if_pos hf, if_pos (by simp [hf]), Parts.unpacked, signOf_toBitVec]
    · rw [if_neg hf, if_neg (BitVec.toNat_pos_of_ne_zero hf).ne']
      rfl
  have hbelow : e.toNat ≠ 2047 := fun h => hones (BitVec.eq_of_toNat_eq h)
  rw [if_neg hones, Parts.ofFields, if_neg hbelow]
  by_cases hzero : e = 0#11
  · subst hzero
    have hnone : (0#11).toNat = 0 := rfl
    rw [if_pos rfl, if_pos hnone, Parts.unpacked, signOf_toBitVec]
    by_cases hf : f = 0#52
    · rw [dif_pos hf, hf]
      rfl
    · rw [dif_neg hf, unpackedFinite_of_pos _ _ _ (BitVec.toNat_pos_of_ne_zero hf)]
      rfl
  · have hpos : 0 < e.toNat := BitVec.toNat_pos_of_ne_zero hzero
    have hfull : (1#1 ++ f).toNat = hiddenBit + f.toNat := by
      rw [BitVec.toNat_append, ← Nat.shiftLeft_add_eq_or_of_lt f.isLt]
      simp [Nat.shiftLeft_eq, hiddenBit]
    have hexponent : (e.toNat : Int) - (1023 + (52 : Nat)) = minExponent + (e.toNat - 1 : Nat) := by
      simp only [minExponent]
      omega
    have hsignificand : 0 < hiddenBit + f.toNat := by simp [hiddenBit]
    rw [if_neg hzero, if_neg hpos.ne', Parts.unpacked, signOf_toBitVec,
      unpackedFinite_of_pos _ _ _ hsignificand]
    simp only [hfull, hexponent]

/-- A number computes on the unpacked form of its parts. -/
theorem unpack_toModel (x : Float) : x.toModel.unpack = (Parts.ofFloat x).unpacked := by
  obtain ⟨s, e, f, hbits⟩ := exists_packComponents x.toBits.toBitVec
  have hunpack : x.toModel.unpack = UnpackedFloat.unpack .binary64 x.toBits.toBitVec := rfl
  rw [hunpack, Parts.ofFloat, ← UInt64.toNat_toBitVec, ← hbits, unpack_packComponents,
    ofBits_packComponents]

/-! ## Packing what a pattern stands for -/

/-- The significands and exponents that patterns have: all 53 bits are used unless the exponent is
the least one. -/
structure Canonical (m : Nat) (e : Int) : Prop where
  lt : m < 2 ^ 53
  minExponent_le : minExponent ≤ e
  le_max : e ≤ 971
  full : 2 ^ 52 ≤ m ∨ e = minExponent

theorem canonical_of_ofFields {negative n : Bool} {biased fraction m : Nat} {e : Int}
    (hbiased : biased < 2 ^ 11) (hfraction : fraction < 2 ^ 52)
    (h : Parts.ofFields negative biased fraction = .finite n m e) : Canonical m e := by
  rw [Parts.ofFields] at h
  split at h
  · split at h <;> cases h
  · split at h
    · cases h
      exact ⟨by omega, le_refl _, by decide, .inr rfl⟩
    · cases h
      have hmin : minExponent = -1074 := rfl
      simp only [hiddenBit, Nat.pow_eq]
      exact ⟨by omega, by omega, by omega, .inl (by omega)⟩

/-- The parts of a finite number are canonical. -/
theorem canonical_of_ofFloat {x : Float} {negative : Bool} {m : Nat} {e : Int}
    (h : Parts.ofFloat x = .finite negative m e) : Canonical m e := by
  obtain ⟨s, biased, fraction, hbits⟩ := exists_packComponents x.toBits.toBitVec
  rw [Parts.ofFloat, ← UInt64.toNat_toBitVec, ← hbits, ofBits_packComponents] at h
  exact canonical_of_ofFields biased.isLt fraction.isLt h

/-- A number with a full significand is packed without the highest bit of the significand. -/
theorem pack_full (s : Sign) (m : Nat) (e : Int) (hm : 0 < m) (hlow : 2 ^ 52 ≤ m)
    (hhigh : m < 2 ^ 53) (hemax : e ≤ 971) :
    UnpackedFloat.pack .binary64 (.finite s m e hm)
      = packComponents .binary64 s (BitVec.ofNat 11 (e + 1075).toNat) (BitVec.ofNat 52 m) := by
  have hlog : m.log2 = 52 := (Nat.log2_eq_iff (by omega)).mpr ⟨hlow, hhigh⟩
  have hbiased : (e + Format.binary64.exponentBias
      + Format.binary64.mantissaBitsWithoutImplicit).toNat = (e + 1075).toNat := by
    simp only [Format.exponentBias]
    omega
  rw [UnpackedFloat.pack]
  simp only [hbiased, hlog]
  rw [if_neg (by omega), if_pos (by norm_num [Format.mantissaBits])]

/-- A significand that is not full is packed as it is. -/
theorem pack_subnormal (s : Sign) (m : Nat) (hm : 0 < m) (hhigh : m < 2 ^ 52) :
    UnpackedFloat.pack .binary64 (.finite s m minExponent hm)
      = packComponents .binary64 s 0#11 (BitVec.ofNat 52 m) := by
  have hlog : m.log2 < 52 := (Nat.log2_lt (by omega)).mpr hhigh
  have hbiased : (minExponent + Format.binary64.exponentBias
      + Format.binary64.mantissaBitsWithoutImplicit).toNat = 1 := by decide
  have hbits : Format.binary64.mantissaBits = 53 := by decide
  rw [UnpackedFloat.pack]
  simp only [hbiased, hbits]
  rw [if_neg (by norm_num), if_neg (by omega)]

/-- Packing loses nothing of a canonical significand and exponent. -/
theorem ofBits_pack (s : Sign) {m : Nat} {e : Int} (h : Canonical m e) :
    Parts.ofBits (UnpackedFloat.pack .binary64 (unpackedFinite s m e)).toNat
      = .finite (s.toBitVec == 1#1) m e := by
  obtain ⟨hlt, hmin, hmax, hfull⟩ := h
  by_cases hlow : 2 ^ 52 ≤ m
  · have hbiased : (BitVec.ofNat 11 (e + 1075).toNat).toNat = (e + 1075).toNat := by
      rw [BitVec.toNat_ofNat]
      omega
    have hfraction : (BitVec.ofNat 52 m).toNat = m - 2 ^ 52 := by
      rw [BitVec.toNat_ofNat]
      omega
    rw [minExponent] at hmin
    rw [unpackedFinite_of_pos s m e (by omega), pack_full s m e _ hlow hlt hmax,
      ofBits_packComponents, hbiased, hfraction, Parts.ofFields, if_neg (by omega),
      if_neg (by omega)]
    simp only [hiddenBit, Nat.pow_eq, minExponent, Parts.finite.injEq, true_and]
    exact ⟨by omega, by omega⟩
  · obtain rfl : e = minExponent := hfull.resolve_left hlow
    have hfraction : (BitVec.ofNat 52 m).toNat = m := by
      rw [BitVec.toNat_ofNat]
      omega
    have hpack : UnpackedFloat.pack .binary64 (unpackedFinite s m minExponent)
        = packComponents .binary64 s 0#11 (BitVec.ofNat 52 m) := by
      rcases Nat.eq_zero_or_pos m with rfl | hpos
      · rfl
      · rw [unpackedFinite_of_pos s m _ hpos, pack_subnormal s m hpos (by omega)]
    rw [hpack, ofBits_packComponents, hfraction]
    rfl

/-- The number packed from a canonical significand and exponent has them as its parts. -/
theorem ofFloat_pack (s : Sign) {m : Nat} {e : Int} (h : Canonical m e) :
    Parts.ofFloat (.ofModel (.pack (unpackedFinite s m e))) = .finite (s.toBitVec == 1#1) m e :=
  ofBits_pack s h

/-- Packing a canonical significand and exponent is undone by unpacking. -/
theorem unpack_pack (s : Sign) {m : Nat} {e : Int} (h : Canonical m e) :
    (pack (unpackedFinite s m e)).unpack = unpackedFinite s m e := by
  have hunpack := unpack_toModel (.ofModel (.pack (unpackedFinite s m e)))
  rw [ofFloat_pack s h, Parts.unpacked, signOf_toBitVec] at hunpack
  exact hunpack

/-- The number that a pattern stands for has the parts of the pattern. -/
theorem ofFloat_ofBits (bits : UInt64) :
    Parts.ofFloat (Float.ofBits bits) = .ofBits bits.toNat := by
  obtain ⟨s, e, f, hbits⟩ := exists_packComponents bits.toBitVec
  have hpacked : (Float.ofBits bits).toBits.toNat
      = (UnpackedFloat.pack .binary64 (UnpackedFloat.unpack .binary64 bits.toBitVec)).toNat := rfl
  rw [Parts.ofFloat, hpacked, ← UInt64.toNat_toBitVec, ← hbits, unpack_packComponents,
    ofBits_packComponents]
  cases hparts : Parts.ofFields (s.toBitVec == 1#1) e.toNat f.toNat with
  | nan => decide
  | infinite negative => cases negative <;> decide
  | finite negative m exponent =>
    have hcanonical := canonical_of_ofFields e.isLt f.isLt hparts
    have hnegative : ((signOf negative).toBitVec == 1#1) = negative := by cases negative <;> rfl
    rw [Parts.unpacked, ofBits_pack _ hcanonical, hnegative]

end Scriptlet.Number
