import Mathlib
import LoxLang.Number.Binary

/-!
Bit patterns of doubles.  A pattern that stands for a number is kept by its double: taking
it apart into sign, exponent and significand and putting these together gives it back.

The equations of `Float.Model` stand in a file that only Mathlib as a whole imports.
-/

namespace LoxLang.Binary

open Float.Model

section

open UnpackedFloat

variable {format : Format}

theorem toBitVec_ofBitVec : ∀ bit : BitVec 1, (Sign.ofBitVec bit).toBitVec = bit := by
  decide

/-- The three fields of a pattern make it up. -/
theorem packComponents_unpack (pattern : BitVec format.numBits) :
    packComponents format (Sign.ofBitVec (unpackSign pattern)) (unpackExponent pattern)
      (unpackMantissa pattern) = pattern := by
  have positive := format.hm
  have positiveExponent := format.he
  have width : format.numBits =
    1 + format.exponentBits + format.mantissaBitsWithoutImplicit := rfl
  apply BitVec.eq_of_getLsbD_eq
  intro index bound
  simp only [packComponents, toBitVec_ofBitVec, BitVec.getLsbD_append, unpackMantissa,
    unpackExponent, unpackSign, BitVec.getLsbD_cast, BitVec.getLsbD_extractLsb]
  split
  · next inMantissa =>
      simp
      omega
  · next above =>
      split
      · next inExponent =>
          have place : format.mantissaBitsWithoutImplicit +
              (index - format.mantissaBitsWithoutImplicit) = index := by
            omega
          rw [place]
          simp
          omega
      · next highest =>
          obtain rfl : index = format.mantissaBitsWithoutImplicit + format.exponentBits := by
            omega
          simp

theorem toNat_one_append {width : Nat} (low : BitVec width) :
    (1#1 ++ low).toNat = 2 ^ width + low.toNat := by
  have joined := Nat.two_pow_add_eq_or_of_lt low.isLt 1
  rw [Nat.mul_one] at joined
  rw [BitVec.toNat_append, Nat.shiftLeft_eq, BitVec.toNat_ofNat, joined, Nat.one_mod, Nat.one_mul]

/-- A significand without the bit that normal numbers leave out keeps exponent zero. -/
theorem pack_subnormal (wide : 1 < format.exponentBits) (sign : Sign)
    {mantissa : BitVec format.mantissaBitsWithoutImplicit} (positive : 0 < mantissa.toNat)
    {exponent : Int} (least : exponent + format.exponentBias + format.mantissaBitsWithoutImplicit = 1) :
    pack format (.finite sign mantissa.toNat exponent positive) =
      packComponents format sign 0#_ mantissa := by
  have room : 2 ^ 2 ≤ 2 ^ format.exponentBits := Nat.pow_le_pow_right (by decide) wide
  have short := (Nat.log2_lt (Nat.ne_of_gt positive)).mpr mantissa.isLt
  have notNormal : mantissa.toNat.log2 + 1 ≠ format.mantissaBits := by
    rw [Format.mantissaBits]
    omega
  have finite : ¬ 2 ^ format.exponentBits ≤ (1 : Int).toNat + 1 := by
    rw [Int.toNat_one]
    exact Nat.not_le.mpr (Nat.lt_of_lt_of_le (by decide) room)
  simp only [UnpackedFloat.pack, least, if_neg finite, if_neg notNormal, BitVec.ofNat_toNat,
    BitVec.setWidth_eq]

/-- A significand with that bit loses it. -/
theorem pack_normal (sign : Sign) (mantissa : BitVec format.mantissaBitsWithoutImplicit)
    {biased : BitVec format.exponentBits} (finite : biased ≠ -1#_) {exponent : Int}
    (same : exponent + format.exponentBias + format.mantissaBitsWithoutImplicit = biased.toNat)
    (positive : 0 < (1#1 ++ mantissa).toNat) :
    pack format (.finite sign (1#1 ++ mantissa).toNat exponent positive) =
      packComponents format sign biased mantissa := by
  have short := mantissa.isLt
  have normal : (1#1 ++ mantissa).toNat.log2 + 1 = format.mantissaBits := by
    have log : (1#1 ++ mantissa).toNat.log2 = format.mantissaBitsWithoutImplicit := by
      rw [Nat.log2_eq_iff (Nat.ne_of_gt positive), toNat_one_append, Nat.pow_succ]
      omega
    rw [log, Format.mantissaBits, Nat.add_comm]
  have below : ¬ 2 ^ format.exponentBits ≤ biased.toNat + 1 := by
    have bound := biased.isLt
    rw [ne_eq, ← BitVec.toNat_inj, BitVec.neg_one_eq_allOnes, BitVec.toNat_allOnes] at finite
    omega
  have low : BitVec.ofNat format.mantissaBitsWithoutImplicit (1#1 ++ mantissa).toNat =
      mantissa := by
    apply BitVec.eq_of_toNat_eq
    rw [toNat_one_append, BitVec.toNat_ofNat, Nat.add_mod_left, Nat.mod_eq_of_lt short]
  simp only [UnpackedFloat.pack, same, Int.toNat_natCast, if_neg below, if_pos normal, low, BitVec.ofNat_toNat,
    BitVec.setWidth_eq]

/-- What stands for a number is packed as it was. -/
theorem pack_unpack (wide : 1 < format.exponentBits) {pattern : BitVec format.numBits}
    (finite : unpackExponent pattern ≠ -1#_) :
    UnpackedFloat.pack format (UnpackedFloat.unpack format pattern) = pattern := by
  have whole := packComponents_unpack pattern
  unfold UnpackedFloat.unpack
  simp only [if_neg finite]
  split
  · next zero =>
      rw [zero] at whole
      split
      · next noMantissa =>
          rw [noMantissa] at whole
          exact whole
      · next mantissa =>
          rw [pack_subnormal wide]
          · exact whole
          · rw [zero, BitVec.toNat_zero]
            omega
  · next exponent =>
      rw [pack_normal _ _ finite]
      · exact whole
      · omega

end

/-- A finite double has the bits that it was made of. -/
theorem toBits_ofBits {pattern : UInt64} (finite : pattern.toNat % 2 ^ 63 < infinityRank) :
    (Float.ofBits pattern).toBits = pattern := by
  have exponent : @UnpackedFloat.unpackExponent Format.binary64 pattern.toBitVec ≠
      -1#_ := by
    rw [ne_eq, ← BitVec.toNat_inj]
    simp only [infinityRank, Nat.pow_eq] at finite
    simp [UnpackedFloat.unpackExponent]
    omega
  have packed := @pack_unpack Format.binary64 (by decide) _ exponent
  show UInt64.ofBitVec (UnpackedFloat.pack Format.binary64
    (UnpackedFloat.unpack Format.binary64 pattern.toBitVec)) = pattern
  rw [packed]

theorem toNat_toUInt64 {rank : Nat} (finite : rank < infinityRank) :
    rank.toUInt64.toNat = rank := by
  simp only [infinityRank, Nat.pow_eq] at finite
  rw [Nat.toUInt64_eq, UInt64.toNat_ofNat']
  omega

theorem toBits_toFloat {rank : Nat} (finite : rank < infinityRank) :
    (toFloat rank).toBits.toNat = rank := by
  rw [toFloat, toBits_ofBits, toNat_toUInt64 finite]
  rw [toNat_toUInt64 finite]
  exact Nat.lt_of_le_of_lt (Nat.mod_le _ _) finite

theorem rank_toFloat {number : Nat} (finite : number < infinityRank) :
    rank (toFloat number) = number := by
  rw [rank, toBits_toFloat finite]
  simp only [infinityRank, Nat.pow_eq] at finite ⊢
  omega

theorem isNegative_toFloat {number : Nat} (finite : number < infinityRank) :
    isNegative (toFloat number) = false := by
  rw [isNegative, toBits_toFloat finite]
  simp only [infinityRank, Nat.pow_eq] at finite ⊢
  simp
  omega

end LoxLang.Binary
