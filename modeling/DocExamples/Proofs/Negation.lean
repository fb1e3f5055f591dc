import DocExamples.Binary64
import Mathlib
/-!
The negation of a double that is a number changes its sign bit. For it the bits are taken apart
into sign, exponent and mantissa.
-/
namespace DocExamples.Binary64

open Float.Model UnpackedFloat

def bitsOf (sign : Sign) (exponent : BitVec 11) (mantissa : BitVec 52) : BitVec 64 :=
  packComponents .binary64 sign exponent mantissa

theorem toNat_normalMantissa (mantissa : BitVec 52) :
    (1#1 ++ mantissa).toNat = 2 ^ 52 + mantissa.toNat := by
  rw [BitVec.toNat_append, ← Nat.shiftLeft_add_eq_or_of_lt mantissa.isLt, Nat.shiftLeft_eq]
  simp

/-- The double with given fields. The mantissa is that of a normal number without its leading bit. -/
def ofFields (sign : Sign) (exponent : BitVec 11) (mantissa : BitVec 52) : UnpackedFloat :=
  if exponent = -1#11 then if mantissa = 0#52 then .infinity sign else .notANumber
  else if exponent = 0#11 then
    if h : mantissa = 0#52 then .zero sign
    else .finite sign mantissa.toNat (-1074) (by
      simpa [BitVec.toNat_pos, BitVec.pos_iff_ne_zero] using h)
  else .finite sign (1#1 ++ mantissa).toNat (exponent.toNat - 1075) (by
    rw [toNat_normalMantissa]
    omega)

variable {sign : Sign} {exponent : BitVec 11} {mantissa : BitVec 52}

theorem ofBitVec_unpackSign :
    Sign.ofBitVec (@unpackSign .binary64 (bitsOf sign exponent mantissa)) = sign := by
  rw [bitsOf, unpackSign_packComponents, Sign.ofBitVec_toBitVec]

theorem unpack_bitsOf :
    UnpackedFloat.unpack .binary64 (bitsOf sign exponent mantissa) = ofFields sign exponent mantissa := by
  have sameMantissa : @unpackMantissa .binary64 (bitsOf sign exponent mantissa) = mantissa :=
    unpackMantissa_packComponents
  have sameExponent : @unpackExponent .binary64 (bitsOf sign exponent mantissa) = exponent :=
    unpackExponent_packComponents
  unfold UnpackedFloat.unpack ofFields
  simp only [sameMantissa, sameExponent, ofBitVec_unpackSign]
  split
  · rfl
  · split
    · next subnormal =>
      subst subnormal
      rfl
    · rfl

theorem neg_ofFields :
    neg (ofFields sign exponent mantissa) = ofFields (-sign) exponent mantissa := by
  unfold ofFields
  split
  · split
    · rfl
    · rfl
  · split
    · split
      · rfl
      · rfl
    · rfl

theorem pack_ofFields (number : exponent = -1#11 → mantissa = 0#52) :
    UnpackedFloat.pack .binary64 (ofFields sign exponent mantissa) = bitsOf sign exponent mantissa := by
  have notNaN : ¬@isNaNBits .binary64 (bitsOf sign exponent mantissa) = true := by
    rw [isNaNBits, decide_eq_true_eq, bitsOf, unpackExponent_packComponents,
      unpackMantissa_packComponents]
    exact fun both => both.2 (number both.1)
  rw [← unpack_bitsOf, pack_unpack, if_neg notNaN]

/-- The negation has the other sign. -/
theorem neg_ofBits_bitsOf (number : exponent = -1#11 → mantissa = 0#52) :
    -Float.ofBits (.ofBitVec (bitsOf sign exponent mantissa)) =
      Float.ofBits (.ofBitVec (bitsOf (-sign) exponent mantissa)) := by
  have packed (sign : Sign) : Float.ofBits (.ofBitVec (bitsOf sign exponent mantissa)) =
      .ofModel (Float.Model.pack (ofFields sign exponent mantissa)) := by
    change Float.ofModel (Float.Model.pack
      (UnpackedFloat.unpack .binary64 (bitsOf sign exponent mantissa))) = _
    rw [unpack_bitsOf]
  have unpacked : (Float.Model.pack (ofFields sign exponent mantissa)).unpack =
      ofFields sign exponent mantissa := by
    change UnpackedFloat.unpack .binary64 (UnpackedFloat.pack .binary64 _) = _
    rw [pack_ofFields number, unpack_bitsOf]
  rw [packed, packed]
  change Float.ofModel (Float.Model.pack (neg (Float.Model.pack _).unpack)) = _
  rw [unpacked, neg_ofFields]

/-! ### Fields of bits -/

theorem toNat_bitsOf : (bitsOf sign exponent mantissa).toNat =
    sign.toBitVec.toNat * 2 ^ 63 + exponent.toNat * 2 ^ 52 + mantissa.toNat := by
  have outer := exponent.isLt
  have inner := mantissa.isLt
  change (sign.toBitVec ++ exponent ++ mantissa).toNat = _
  rw [BitVec.toNat_append, BitVec.toNat_append, ← Nat.shiftLeft_add_eq_or_of_lt inner,
    ← Nat.shiftLeft_add_eq_or_of_lt outer, Nat.shiftLeft_eq, Nat.shiftLeft_eq]
  omega

variable {bits : Nat}

theorem bitsOf_positive (below : bits < signBit) :
    bitsOf .positive (.ofNat 11 (bits / 2 ^ 52)) (.ofNat 52 bits) = .ofNat 64 bits := by
  rw [signBit] at below
  apply BitVec.eq_of_toNat_eq
  rw [toNat_bitsOf]
  simp only [Sign.toBitVec, BitVec.toNat_ofNat]
  omega

theorem bitsOf_negative (below : bits < signBit) :
    bitsOf .negative (.ofNat 11 (bits / 2 ^ 52)) (.ofNat 52 bits) = .ofNat 64 (bits + signBit) := by
  rw [signBit] at below
  apply BitVec.eq_of_toNat_eq
  rw [toNat_bitsOf, signBit]
  simp only [Sign.toBitVec, BitVec.toNat_ofNat]
  omega

theorem lt_signBit (number : bits ≤ 2047 * leadingBit) : bits < signBit := by
  rw [leadingBit] at number
  rw [signBit]
  omega

/-- Up to the bits of infinity, the bits stand for a number. -/
theorem isNumber_of_le (number : bits ≤ 2047 * leadingBit) :
    BitVec.ofNat 11 (bits / 2 ^ 52) = -1#11 → BitVec.ofNat 52 bits = 0#52 := by
  intro top
  have top := congrArg BitVec.toNat top
  rw [leadingBit] at number
  simp only [BitVec.toNat_ofNat, BitVec.neg_one_eq_allOnes, BitVec.toNat_allOnes] at top
  apply BitVec.eq_of_toNat_eq
  simp only [BitVec.toNat_ofNat]
  omega

theorem neg_withSign (number : bits ≤ 2047 * leadingBit) :
    -withSign false bits = withSign true bits := by
  have below := lt_signBit number
  have negated : -Float.ofBits (.ofBitVec (bitsOf .positive _ _)) =
      Float.ofBits (.ofBitVec (bitsOf .negative _ _)) := neg_ofBits_bitsOf (isNumber_of_le number)
  rw [bitsOf_positive below, bitsOf_negative below] at negated
  exact negated

theorem toBits_withSign (number : bits ≤ 2047 * leadingBit) :
    (withSign false bits).toBits.toNat = bits := by
  have below := lt_signBit number
  have kept : UnpackedFloat.pack .binary64 (UnpackedFloat.unpack .binary64
      (bitsOf .positive (.ofNat 11 (bits / 2 ^ 52)) (.ofNat 52 bits))) =
      bitsOf .positive (.ofNat 11 (bits / 2 ^ 52)) (.ofNat 52 bits) := by
    rw [unpack_bitsOf, pack_ofFields (isNumber_of_le number)]
  rw [bitsOf_positive below] at kept
  change (UnpackedFloat.pack .binary64
    (UnpackedFloat.unpack .binary64 (BitVec.ofNat 64 bits))).toNat = bits
  rw [signBit] at below
  rw [kept]
  exact (BitVec.toNat_ofNat bits 64).trans (Nat.mod_eq_of_lt (by omega))

theorem nearestBits_le (num den : Nat) : nearestBits num den ≤ 2047 * leadingBit := by
  unfold nearestBits
  split
  · exact Nat.zero_le _
  · exact Nat.min_le_right _ _

theorem neg_ofRatio (num den : Nat) : -ofRatio false num den = ofRatio true num den :=
  neg_withSign (nearestBits_le num den)

theorem neg_infinity : -infinity = negInfinity :=
  neg_withSign (Nat.le_refl (2047 * leadingBit))

end DocExamples.Binary64
