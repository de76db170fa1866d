import LoxLang.Proofs.Number.Fields

/-!
Whole numbers as doubles.  Up to `2 ^ 53` every natural is a double, and sums that stay there
are exact: what rounding shifts out of a significand are zeros.
-/

namespace LoxLang.Binary

open Float.Model

section

open UnpackedFloat

theorem log2_mul_two_pow {number : Nat} (nonzero : number ≠ 0) (count : Nat) :
    (number * 2 ^ count).log2 = number.log2 + count := by
  induction count with
  | zero => rw [Nat.pow_zero, Nat.mul_one, Nat.add_zero]
  | succ count inductionHypothesis =>
      have shifted : number * 2 ^ count ≠ 0 :=
        Nat.mul_ne_zero nonzero (Nat.ne_of_gt (Nat.two_pow_pos count))
      rw [Nat.pow_succ', Nat.mul_left_comm, Nat.log2_two_mul shifted, inductionHypothesis,
        Nat.add_assoc]

theorem ne_zero_of_same {mantissa kept up count : Nat} (positive : 0 < kept)
    (same : mantissa * 2 ^ up = kept * 2 ^ count) : mantissa ≠ 0 := by
  rintro rfl
  rw [Nat.zero_mul] at same
  exact Nat.mul_ne_zero (Nat.ne_of_gt positive) (Nat.ne_of_gt (Nat.two_pow_pos count)) same.symm

/-- Zeros that are shifted out leave no trace. -/
theorem repeat_shiftRightOne (kept count : Nat) :
    count.repeat ExtendedMantissa.shiftRightOne ⟨kept * 2 ^ count, false, false⟩ =
      ⟨kept, false, false⟩ := by
  induction count generalizing kept with
  | zero => simp [Nat.repeat]
  | succ count inductionHypothesis =>
      have doubled : kept * 2 ^ (count + 1) = kept * 2 * 2 ^ count := by
        rw [Nat.pow_succ', Nat.mul_assoc]
      rw [Nat.repeat, doubled, inductionHypothesis]
      simp [ExtendedMantissa.shiftRightOne]

/-- A significand of 53 bits stands at the exponent that its number is rounded at. -/
theorem targetExponent_eq {mantissa length : Nat} {exponent : Int}
    (long : mantissa.log2 + exponent = length) :
    Format.binary64.targetExponent (totalExponent mantissa exponent) = length - 52 := by
  have least : Format.binary64.minExponent = -1074 := by decide
  have width : Format.binary64.mantissaBits = 53 := by decide
  rw [Format.targetExponent, totalExponent, least, width]
  omega

section Rounding

variable {kept length : Nat}

theorem shiftToTargetExponent_of_fits (bits : kept.log2 = 52) {count : Nat} {exponent : Int}
    (fits : exponent + count = length - 52) :
    shiftToTargetExponent .binary64 (kept * 2 ^ count) exponent .exact =
      (⟨kept, false, false⟩, (length - 52 : Int)) := by
  have nonzero : kept ≠ 0 := by
    rintro rfl
    cases bits
  have long : (kept * 2 ^ count).log2 + exponent = length := by
    rw [log2_mul_two_pow nonzero]
    omega
  have shift : ((length - 52 : Int) - exponent).toNat = count := by omega
  have shifted := repeat_shiftRightOne kept count
  simp only [shiftToTargetExponent, shiftToExponent, targetExponent_eq long, shift, fits]
  exact congrArg (·, (length - 52 : Int)) shifted

/-- A number of 53 bits, followed by zeros, is rounded to these bits. -/
theorem roundWithAccuracy_of_fits (bits : kept.log2 = 52) (positive : 0 < kept) {count : Nat}
    {exponent : Int} (fits : exponent + count = length - 52) (sign : Sign) :
    roundWithAccuracy .binary64 sign (kept * 2 ^ count) exponent .exact =
      .finite sign kept (length - 52) positive := by
  have second := @shiftToTargetExponent_of_fits kept length bits 0 _ (Int.add_zero _)
  rw [Nat.pow_zero, Nat.mul_one] at second
  have rounded : ExtendedMantissa.roundedMantissa ⟨kept, false, false⟩ = kept := rfl
  simp only [roundWithAccuracy, shiftToTargetExponent_of_fits bits fits, rounded, second,
    dif_neg (Nat.ne_of_gt positive)]

/-- Rounding goes by the value alone, however its significand and exponent share it out. -/
theorem normalize_of_fits (bits : kept.log2 = 52) (positive : 0 < kept)
    {mantissa up count : Nat} {exponent : Int} (same : mantissa * 2 ^ up = kept * 2 ^ count)
    (fits : exponent - up + count = length - 52) (zeroSign : Sign) :
    UnpackedFloat.normalize .binary64 mantissa exponent zeroSign =
      .finite .positive kept (length - 52) positive := by
  have nonzero := ne_zero_of_same positive same
  have greater : compare (mantissa : Int) 0 = .gt := by
    rw [Int.compare_eq_gt]
    exact Int.natCast_pos.mpr (Nat.pos_of_ne_zero nonzero)
  have logs := congrArg Nat.log2 same
  rw [log2_mul_two_pow nonzero, log2_mul_two_pow (Nat.ne_of_gt positive), bits] at logs
  have long : mantissa.log2 + exponent = length := by omega
  have down : (exponent - (length - 52)).toNat = up - count := by omega
  simp only [UnpackedFloat.normalize, greater, Int.toNat_natCast, UnpackedFloat.round,
    targetExponent_eq long, decreaseExponent, down, Nat.shiftLeft_eq]
  rcases Nat.le_total up count with few | many
  · have split : mantissa = kept * 2 ^ (count - up) := by
      apply Nat.eq_of_mul_eq_mul_right (Nat.two_pow_pos up)
      rw [same, Nat.mul_assoc, ← Nat.pow_add, Nat.sub_add_cancel few]
    rw [Nat.sub_eq_zero_of_le few, Nat.pow_zero, Nat.mul_one, split]
    exact roundWithAccuracy_of_fits bits positive (by omega) _
  · have split : mantissa * 2 ^ (up - count) = kept * 2 ^ 0 := by
      apply Nat.eq_of_mul_eq_mul_right (Nat.two_pow_pos count)
      rw [Nat.mul_assoc, ← Nat.pow_add, Nat.sub_add_cancel many, same, Nat.pow_zero, Nat.mul_one]
    rw [split]
    exact roundWithAccuracy_of_fits bits positive (by omega) _

end Rounding

/-- The parts of the double that is a natural. -/
inductive IsWhole : Nat → UnpackedFloat → Prop where
  | zero : IsWhole 0 (.zero .positive)
  | positive {number kept length : Nat} (positive : 0 < kept) : kept.log2 = 52 → length ≤ 53 →
      number * 2 ^ 52 = kept * 2 ^ length →
        IsWhole number (.finite .positive kept (length - 52) positive)

namespace IsWhole

variable {number other : Nat} {parts otherParts : UnpackedFloat}

theorem exists_parts (small : number ≤ 2 ^ 53) : ∃ parts, IsWhole number parts := by
  rcases Nat.eq_zero_or_pos number with rfl | positive
  · exact ⟨_, .zero⟩
  · have nonzero := Nat.ne_of_gt positive
    rcases Nat.lt_or_eq_of_le small with below | rfl
    · have short : number.log2 < 53 := (Nat.log2_lt nonzero).mpr below
      have kept : 0 < number * 2 ^ (52 - number.log2) :=
        Nat.mul_pos positive (Nat.two_pow_pos _)
      refine ⟨_, .positive kept ?_ (Nat.le_of_lt short) ?_⟩
      · rw [log2_mul_two_pow nonzero]
        omega
      · rw [Nat.mul_assoc, ← Nat.pow_add, Nat.sub_add_cancel (Nat.le_of_lt_succ short)]
    · exact ⟨_, .positive (Nat.two_pow_pos 52) (by decide) (Nat.le_refl 53) (Nat.mul_comm _ _)⟩

/-- A natural has one form. -/
theorem unique (isWhole : IsWhole number parts) (otherwise : IsWhole number otherParts) :
    parts = otherParts := by
  cases isWhole with
  | zero =>
      cases otherwise with
      | zero => rfl
      | positive positive _ _ same => exact absurd rfl (ne_zero_of_same positive same)
  | @positive _ kept length positive bits _ same =>
      cases otherwise with
      | zero => exact absurd rfl (ne_zero_of_same positive same)
      | @positive _ otherKept otherLength otherPositive otherBits _ otherSame =>
          have equal := same.symm.trans otherSame
          have logs := congrArg Nat.log2 equal
          rw [log2_mul_two_pow (Nat.ne_of_gt positive),
            log2_mul_two_pow (Nat.ne_of_gt otherPositive), bits, otherBits] at logs
          obtain rfl : length = otherLength := Nat.add_left_cancel logs
          obtain rfl := Nat.eq_of_mul_eq_mul_right (Nat.two_pow_pos length) equal
          rfl

theorem ofNat_eq (isWhole : IsWhole number parts) :
    UnpackedFloat.ofNat .binary64 number = parts := by
  cases isWhole with
  | zero => rfl
  | positive positive bits _ same => exact normalize_of_fits bits positive same (by omega) _

theorem isFinite (isWhole : IsWhole number parts) : parts.isFinite = true := by
  cases isWhole <;> rfl

/-- A natural is packed without loss. -/
theorem unpack_pack (isWhole : IsWhole number parts) :
    UnpackedFloat.unpack .binary64 (UnpackedFloat.pack .binary64 parts) = parts := by
  cases isWhole with
  | zero => rfl
  | @positive _ kept length positive bits room same =>
      obtain ⟨least, short⟩ := (Nat.log2_eq_iff (Nat.ne_of_gt positive)).mp bits
      have value : (1#1 ++ BitVec.ofNat 52 (kept - 2 ^ 52)).toNat = kept := by
        rw [toNat_one_append, BitVec.toNat_ofNat]
        omega
      have biased : (BitVec.ofNat 11 (length + 1023)).toNat = length + 1023 := by
        rw [BitVec.toNat_ofNat]
        omega
      have bias : Format.binary64.exponentBias = 1023 := by decide
      have packed := @unpack_pack_normal Format.binary64 .positive
        (BitVec.ofNat 52 (kept - 2 ^ 52)) (BitVec.ofNat 11 (length + 1023))
        (fun special => by
          rw [← BitVec.toNat_inj, biased] at special
          simp at special
          omega)
        (fun special => by
          rw [← BitVec.toNat_inj, biased] at special
          simp at special)
        (length - 52)
        (by
          rw [biased, bias]
          show (length - 52 : Int) + (1023 : Nat) + (52 : Nat) = _
          omega)
        (by
          rw [value]
          exact positive)
      simp only [value] at packed
      exact packed

/-- Multiplying by one keeps a natural. -/
theorem mul_one (isWhole : IsWhole number parts) (isOne : IsWhole 1 otherParts) :
    UnpackedFloat.mul .binary64 parts otherParts = parts := by
  cases isOne with
  | @positive _ one zeros onePositive oneBits _ oneSame =>
      cases isWhole with
      | zero => rfl
      | @positive _ kept length positive bits room same =>
          have logOne : Nat.log2 1 = 0 := by decide
          have logs := congrArg Nat.log2 oneSame
          rw [log2_mul_two_pow Nat.one_ne_zero, log2_mul_two_pow (Nat.ne_of_gt onePositive),
            oneBits, logOne] at logs
          obtain rfl : zeros = 0 := by omega
          obtain rfl : 2 ^ 52 = one := by simpa using oneSame
          exact roundWithAccuracy_of_fits bits positive (by omega) _

/-- A sum that a double holds is exact. -/
theorem add_eq {sum : UnpackedFloat} (isWhole : IsWhole number parts)
    (otherwise : IsWhole other otherParts) (together : IsWhole (number + other) sum) :
    UnpackedFloat.add .binary64 parts otherParts = sum := by
  cases isWhole with
  | zero =>
      rw [Nat.zero_add] at together
      rw [together.unique otherwise]
      cases otherwise <;> rfl
  | @positive _ kept length positive bits room same =>
      cases otherwise with
      | zero => exact (IsWhole.positive positive bits room same).unique together
      | @positive _ otherKept otherLength otherPositive otherBits otherRoom otherSame =>
          generalize whole : number + other = total at together
          -- Both significands are brought to the smaller exponent, which loses nothing.
          obtain ⟨least, isLeast⟩ : ∃ least, least = min length otherLength := ⟨_, rfl⟩
          have smaller : min (length - 52 : Int) (otherLength - 52) = least - 52 := by omega
          have first : ((length - 52 : Int) - (least - 52)).toNat = length - least := by omega
          have second : ((otherLength - 52 : Int) - (least - 52)).toNat =
              otherLength - least := by
            omega
          have added : (kept * 2 ^ (length - least) + otherKept * 2 ^ (otherLength - least)) *
              2 ^ least = total * 2 ^ 52 := by
            rw [Nat.add_mul, Nat.mul_assoc, Nat.mul_assoc, ← Nat.pow_add, ← Nat.pow_add,
              Nat.sub_add_cancel (by omega), Nat.sub_add_cancel (by omega), ← same, ← otherSame,
              ← Nat.add_mul, whole]
          simp only [UnpackedFloat.add, smaller, decreaseExponent, first, second,
            Nat.shiftLeft_eq, Sign.apply, ← Int.natCast_add]
          cases together with
          | zero =>
              have := ne_zero_of_same positive same
              omega
          | positive sumPositive sumBits _ sumSame =>
              exact normalize_of_fits sumBits sumPositive (added.trans sumSame) (by omega) _

end IsWhole

/-- The parts of a double. -/
abbrev parts (value : Float) : UnpackedFloat :=
  value.toModel.unpack

/-- Finite doubles of the same parts are the same. -/
theorem eq_of_parts {first second : Float} (finite : first.isFinite = true)
    (same : parts first = parts second) : first = second := by
  have otherFinite : second.isFinite = true := by
    show (parts second).isFinite = true
    rw [← same]
    exact finite
  apply eq_of_fields
  have packed := @pack_unpack .binary64
  rw [← packed (by decide) (isFinite_iff.mp finite),
    ← packed (by decide) (isFinite_iff.mp otherFinite)]
  exact congrArg _ same

theorem isWhole_one : IsWhole 1 (parts (Float.ofBits 0x3FF0000000000000)) := by
  have one := @IsWhole.positive 1 (2 ^ 52) 0 (by decide) (by decide) (by decide) (by decide)
  exact one

/-- Up to `2 ^ 53` the double of a natural is that natural. -/
theorem isWhole_ofNat {number : Nat} (small : number ≤ 2 ^ 53) :
    IsWhole number (parts (Float.ofNat number)) := by
  obtain ⟨form, isWhole⟩ := IsWhole.exists_parts small
  suffices same : parts (Float.ofNat number) = form by rwa [same]
  show parts (Float.ofScientific number false 0) = form
  unfold Float.ofScientific
  split
  · -- A short natural is converted as a word and multiplied by one.
    have word : number.toUInt64.toNat = number := by
      rw [Nat.toUInt64_eq, UInt64.toNat_ofNat']
      omega
    show UnpackedFloat.unpack .binary64 (UnpackedFloat.pack .binary64
      (UnpackedFloat.mul .binary64
        (UnpackedFloat.unpack .binary64 (UnpackedFloat.pack .binary64
          (UnpackedFloat.ofNat .binary64 number.toUInt64.toNat)))
        (parts (Float.ofBits 0x3FF0000000000000)))) = form
    rw [word, isWhole.ofNat_eq, isWhole.unpack_pack, isWhole.mul_one isWhole_one,
      isWhole.unpack_pack]
  · obtain rfl : number = 2 ^ 53 := by omega
    have greatest := @IsWhole.positive (2 ^ 53) (2 ^ 52) 53 (by decide) (by decide)
      (by decide) (by decide)
    rw [isWhole.unique greatest]
    rfl

/-- Sums up to `2 ^ 53` are exact. -/
theorem ofNat_add {first second : Nat} (small : first + second ≤ 2 ^ 53) :
    Float.ofNat first + Float.ofNat second = Float.ofNat (first + second) := by
  have isWhole : IsWhole first _ := isWhole_ofNat (Nat.le_trans (Nat.le_add_right ..) small)
  have otherwise : IsWhole second _ := isWhole_ofNat (Nat.le_trans (Nat.le_add_left ..) small)
  have together := isWhole_ofNat small
  refine (eq_of_parts together.isFinite ?_).symm
  show _ = UnpackedFloat.unpack .binary64 (UnpackedFloat.pack .binary64
    (UnpackedFloat.add .binary64 (parts (Float.ofNat first)) (parts (Float.ofNat second))))
  rw [isWhole.add_eq otherwise together, together.unpack_pack]

theorem isNaN_normalize (mantissa exponent : Int) (zeroSign : Sign) :
    (UnpackedFloat.normalize .binary64 mantissa exponent zeroSign).isNaN = false := by
  unfold UnpackedFloat.normalize
  split
  · simp only [UnpackedFloat.round, roundWithAccuracy]
    split <;> rfl
  · rfl
  · simp only [UnpackedFloat.round, roundWithAccuracy]
    split <;> rfl

/-- Only opposite infinities and what is no number add up to no number. -/
theorem isNaN_add_of_isFinite {first second : UnpackedFloat} (isNumber : first.isNaN = false)
    (finite : second.isFinite = true) :
    (UnpackedFloat.add .binary64 first second).isNaN = false := by
  cases second with
  | notANumber => cases finite
  | infinity _ => cases finite
  | zero otherSign =>
      cases first with
      | notANumber => cases isNumber
      | zero sign => cases sign <;> cases otherSign <;> rfl
      | _ => rfl
  | finite _ _ _ _ =>
      cases first with
      | notANumber => cases isNumber
      | finite _ _ _ _ => exact isNaN_normalize _ _ _
      | _ => rfl

/-- Adding a finite double to a number gives a number. -/
theorem isNaN_add {sum term : Float} (isNumber : sum.isNaN = false)
    (finite : term.isFinite = true) : (sum + term).isNaN = false :=
  isNaN_unpack_pack (isNaN_add_of_isFinite isNumber finite)

end

end LoxLang.Binary
