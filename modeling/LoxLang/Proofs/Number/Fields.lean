import LoxLang.Proofs.Number.Pattern

/-!
The fields of a double.  A pattern is a sign, an exponent and a significand.  The sign alone
tells a negative double from its magnitude, the exponent alone tells what is finite, and a
number that is packed is a number again.
-/

namespace LoxLang

namespace Binary

open Float.Model

section

open UnpackedFloat

variable {format : Format}

theorem toNat_append_eq {high low : Nat} (first : BitVec high) (second : BitVec low) :
    (first ++ second).toNat = first.toNat * 2 ^ low + second.toNat := by
  rw [BitVec.toNat_append, Nat.shiftLeft_eq, Nat.mul_comm,
    Nat.two_pow_add_eq_or_of_lt second.isLt]

theorem ofBitVec_toBitVec (sign : Sign) : Sign.ofBitVec sign.toBitVec = sign := by
  cases sign <;> rfl

theorem unpackSign_packComponents {sign : Sign} {exponent : BitVec format.exponentBits}
    {mantissa : BitVec format.mantissaBitsWithoutImplicit} :
    unpackSign (packComponents format sign exponent mantissa) = sign.toBitVec := by
  apply BitVec.eq_of_getLsbD_eq
  intro index bound
  obtain rfl : index = 0 := by omega
  have above : ¬ format.mantissaBitsWithoutImplicit + format.exponentBits <
      format.mantissaBitsWithoutImplicit := by
    omega
  simp [unpackSign, packComponents, BitVec.getLsbD_append, above, BitVec.getLsbD_eq_getElem,
    BitVec.getElem_append]

theorem zero_ne_neg_one : (0#_ : BitVec format.exponentBits) ≠ -1#_ := by
  have room := Nat.one_lt_two_pow (Nat.ne_of_gt format.he)
  rw [ne_eq, ← BitVec.toNat_inj, BitVec.neg_one_eq_allOnes, BitVec.toNat_allOnes,
    BitVec.toNat_zero]
  omega

/-- An exponent below the greatest stands for numbers. -/
theorem ofNat_ne_neg_one {biased : Nat} (small : ¬ 2 ^ format.exponentBits ≤ biased + 1) :
    BitVec.ofNat format.exponentBits biased ≠ -1#_ := by
  rw [ne_eq, ← BitVec.toNat_inj, BitVec.neg_one_eq_allOnes, BitVec.toNat_allOnes,
    BitVec.toNat_ofNat, Nat.mod_eq_of_lt (by omega)]
  omega

theorem isNaN_unpack (pattern : BitVec format.numBits) :
    (UnpackedFloat.unpack format pattern).isNaN = true ↔
      unpackExponent pattern = -1#_ ∧ unpackMantissa pattern ≠ 0#_ := by
  unfold UnpackedFloat.unpack
  dsimp only
  split
  · split <;> simp_all [UnpackedFloat.isNaN]
  · next finite =>
      simp only [finite, false_and, iff_false]
      split
      · split <;> simp [UnpackedFloat.isNaN]
      · simp [UnpackedFloat.isNaN]

theorem isFinite_unpack (pattern : BitVec format.numBits) :
    (UnpackedFloat.unpack format pattern).isFinite = true ↔ unpackExponent pattern ≠ -1#_ := by
  unfold UnpackedFloat.unpack
  dsimp only
  split
  · split <;> simp_all [UnpackedFloat.isFinite]
  · next finite =>
      simp only [ne_eq, finite, not_false_eq_true, iff_true]
      split
      · split <;> simp [UnpackedFloat.isFinite]
      · simp [UnpackedFloat.isFinite]

/-- What is a number stays one when it is packed. -/
theorem isNaN_unpack_pack {number : UnpackedFloat} (isNumber : number.isNaN = false) :
    (UnpackedFloat.unpack format (UnpackedFloat.pack format number)).isNaN = false := by
  rw [Bool.eq_false_iff, ne_eq, isNaN_unpack]
  cases number with
  | notANumber => cases isNumber
  | infinity sign => simp [UnpackedFloat.pack, packedInfinity]
  | zero sign =>
      simp only [UnpackedFloat.pack, packedZero, unpackExponent_packComponents]
      exact fun special => zero_ne_neg_one special.1
  | finite sign mantissa exponent positive =>
      simp only [UnpackedFloat.pack]
      split
      · simp [packedInfinity]
      · next small =>
          split
          · rw [unpackExponent_packComponents]
            exact fun special => ofNat_ne_neg_one small special.1
          · rw [unpackExponent_packComponents]
            exact fun special => zero_ne_neg_one special.1

/-- A significand with its leading bit is packed without loss. -/
theorem unpack_pack_normal (sign : Sign) (mantissa : BitVec format.mantissaBitsWithoutImplicit)
    {biased : BitVec format.exponentBits} (finite : biased ≠ -1#_) (normal : biased ≠ 0#_)
    {exponent : Int}
    (same : exponent + format.exponentBias + format.mantissaBitsWithoutImplicit = biased.toNat)
    (positive : 0 < (1#1 ++ mantissa).toNat) :
    UnpackedFloat.unpack format
        (UnpackedFloat.pack format (.finite sign (1#1 ++ mantissa).toNat exponent positive)) =
      .finite sign (1#1 ++ mantissa).toNat exponent positive := by
  have stored : (biased.toNat : Int) - (format.exponentBias + format.mantissaBitsWithoutImplicit) =
      exponent := by
    omega
  rw [pack_normal sign mantissa finite same positive]
  simp only [UnpackedFloat.unpack, unpackSign_packComponents, unpackExponent_packComponents,
    unpackMantissa_packComponents, ofBitVec_toBitVec, if_neg finite, if_neg normal, stored]

/-- Negation turns the sign over and nothing else. -/
theorem neg_unpack (pattern : BitVec format.numBits) :
    (UnpackedFloat.unpack format pattern).neg =
      UnpackedFloat.unpack format (packComponents format
        (-(Sign.ofBitVec (unpackSign pattern))) (unpackExponent pattern)
        (unpackMantissa pattern)) := by
  simp only [UnpackedFloat.unpack, unpackSign_packComponents, unpackExponent_packComponents,
    unpackMantissa_packComponents, ofBitVec_toBitVec]
  split
  · split <;> rfl
  · split
    · split <;> rfl
    · rfl

theorem abs_unpack (pattern : BitVec format.numBits) :
    (UnpackedFloat.unpack format pattern).abs =
      UnpackedFloat.unpack format (packComponents format .positive (unpackExponent pattern)
        (unpackMantissa pattern)) := by
  simp only [UnpackedFloat.unpack, unpackSign_packComponents, unpackExponent_packComponents,
    unpackMantissa_packComponents, ofBitVec_toBitVec]
  split
  · split <;> rfl
  · split
    · split <;> rfl
    · rfl

end

section

open UnpackedFloat

/-- The bits of a double, as its format takes them apart. -/
abbrev fields (value : Float) : BitVec Format.binary64.numBits :=
  value.toBits.toBitVec

/-- Doubles of the same bits are the same. -/
theorem eq_of_fields {first second : Float} (same : fields first = fields second) :
    first = second := by
  obtain ⟨⟨⟨bits⟩, valid⟩⟩ := first
  obtain ⟨⟨⟨otherBits⟩, otherValid⟩⟩ := second
  obtain rfl : bits = otherBits := same
  rfl

variable {value : Float}

theorem exponent_lt : (unpackExponent (fields value)).toNat < 2 ^ 11 :=
  (unpackExponent (fields value)).isLt

theorem mantissa_lt : (unpackMantissa (fields value)).toNat < 2 ^ 52 :=
  (unpackMantissa (fields value)).isLt

theorem toNat_packComponents (sign : Sign) (exponent : BitVec 11) (mantissa : BitVec 52) :
    (packComponents .binary64 sign exponent mantissa).toNat =
      (sign.toBitVec.toNat * 2 ^ 11 + exponent.toNat) * 2 ^ 52 + mantissa.toNat := by
  rw [packComponents, toNat_append_eq, toNat_append_eq]

/-- The pattern of a double by its fields. -/
theorem toNat_fields (value : Float) :
    value.toBits.toNat = ((unpackSign (fields value)).toNat * 2 ^ 11 +
      (unpackExponent (fields value)).toNat) * 2 ^ 52 + (unpackMantissa (fields value)).toNat := by
  have whole := congrArg BitVec.toNat (packComponents_unpack (fields value))
  rw [toNat_packComponents, toBitVec_ofBitVec] at whole
  exact whole.symm

theorem rank_eq (value : Float) :
    rank value =
      (unpackExponent (fields value)).toNat * 2 ^ 52 + (unpackMantissa (fields value)).toNat := by
  have whole := toNat_fields value
  have exponent := @exponent_lt value
  have mantissa := @mantissa_lt value
  rw [rank]
  simp only [Nat.pow_eq]
  omega

theorem isFinite_iff : value.isFinite = true ↔ unpackExponent (fields value) ≠ -1#_ :=
  isFinite_unpack (fields value)

/-- The finite doubles are those of the ranks below infinity. -/
theorem isFinite_iff_rank : value.isFinite = true ↔ rank value < infinityRank := by
  have exponent := @exponent_lt value
  have mantissa := @mantissa_lt value
  rw [isFinite_iff, rank_eq, infinityRank, ne_eq, ← BitVec.toNat_inj,
    BitVec.neg_one_eq_allOnes, BitVec.toNat_allOnes]
  simp only [Nat.pow_eq]
  omega

theorem isNegative_iff :
    isNegative value = true ↔ Sign.ofBitVec (unpackSign (fields value)) = .negative := by
  have whole := toNat_fields value
  have exponent := @exponent_lt value
  have mantissa := @mantissa_lt value
  rw [isNegative, Sign.ofBitVec]
  simp only [Nat.pow_eq, decide_eq_true_eq]
  by_cases zero : unpackSign (fields value) = 0#1
  · rw [zero, BitVec.toNat_zero] at whole
    simp only [zero, if_true, reduceCtorEq, iff_false]
    omega
  · have bit := (unpackSign (fields value)).isLt
    have one : (unpackSign (fields value)).toNat ≠ 0 := fun none =>
      zero (BitVec.eq_of_toNat_eq none)
    simp only [zero, if_false, iff_true]
    omega

theorem fields_neg (finite : value.isFinite = true) :
    fields (-value) = packComponents .binary64 (-(Sign.ofBitVec (unpackSign (fields value))))
      (unpackExponent (fields value)) (unpackMantissa (fields value)) := by
  show UnpackedFloat.pack .binary64 (UnpackedFloat.unpack .binary64 (fields value)).neg = _
  rw [neg_unpack, pack_unpack (by decide)]
  rw [unpackExponent_packComponents]
  exact isFinite_iff.mp finite

theorem fields_abs (finite : value.isFinite = true) :
    fields value.abs = packComponents .binary64 .positive
      (unpackExponent (fields value)) (unpackMantissa (fields value)) := by
  show UnpackedFloat.pack .binary64 (UnpackedFloat.unpack .binary64 (fields value)).abs = _
  rw [abs_unpack, pack_unpack (by decide)]
  rw [unpackExponent_packComponents]
  exact isFinite_iff.mp finite

/-- The magnitude of a finite double is the double of its rank. -/
theorem toFloat_rank (finite : value.isFinite = true) : toFloat (rank value) = value.abs := by
  apply eq_of_fields
  rw [fields_abs finite, ← BitVec.toNat_inj, toNat_packComponents]
  refine (toBits_toFloat (isFinite_iff_rank.mp finite)).trans ((rank_eq value).trans ?_)
  simp [Sign.toBitVec]

theorem isFinite_abs (finite : value.isFinite = true) : value.abs.isFinite = true := by
  rw [isFinite_iff, fields_abs finite, unpackExponent_packComponents]
  exact isFinite_iff.mp finite

/-- A double that is not negative is its magnitude. -/
theorem abs_of_not_negative (finite : value.isFinite = true) (sign : isNegative value = false) :
    value.abs = value := by
  have positive : Sign.ofBitVec (unpackSign (fields value)) = .positive := by
    rw [Bool.eq_false_iff, ne_eq, isNegative_iff] at sign
    cases same : Sign.ofBitVec (unpackSign (fields value)) with
    | negative => exact absurd same sign
    | positive => rfl
  apply eq_of_fields
  rw [fields_abs finite, ← positive, packComponents_unpack]

/-- A negative double, negative zero included, is its magnitude negated. -/
theorem neg_abs_of_negative (finite : value.isFinite = true) (sign : isNegative value = true) :
    -value.abs = value := by
  apply eq_of_fields
  rw [fields_neg (isFinite_abs finite), fields_abs finite, unpackSign_packComponents,
    unpackExponent_packComponents, unpackMantissa_packComponents, ofBitVec_toBitVec]
  show packComponents .binary64 .negative _ _ = _
  rw [← isNegative_iff.mp sign, packComponents_unpack]

end

end Binary

end LoxLang
