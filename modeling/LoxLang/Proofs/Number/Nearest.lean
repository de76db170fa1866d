import LoxLang.Number.Display
import LoxLang.Proofs.Number.Digits
import LoxLang.Proofs.Number.Pattern

/-!
Numbers read back.  Rounding looks at a ratio alone, and the ratio of a double rounds to it;
so the digits that are written for a finite double are read as that double, and no two
finite doubles that are not negative are written alike.
-/

namespace LoxLang

namespace Binary

theorem roundDiv_mul_left {factor : Nat} (positive : 0 < factor) (numerator denominator : Nat) :
    roundDiv (factor * numerator) (factor * denominator) = roundDiv numerator denominator := by
  have twice : 2 * (factor * numerator % (factor * denominator)) =
      factor * (2 * (numerator % denominator)) := by
    rw [Nat.mul_mod_mul_left, Nat.mul_left_comm]
  simp only [roundDiv, twice, Nat.mul_div_mul_left _ _ positive,
    Nat.mul_lt_mul_left positive, beq_eq_decide, Nat.mul_right_inj (Nat.ne_of_gt positive)]

/-- A common factor does not count. -/
theorem nearest_mul_left {factor : Nat} (positive : 0 < factor) (numerator denominator : Nat) :
    nearest (factor * numerator) (factor * denominator) = nearest numerator denominator := by
  simp only [nearest, scaleOfRatio, Nat.mul_assoc, Nat.mul_div_mul_left _ _ positive,
    roundDiv_mul_left positive]

/-- Equal ratios are rounded to the same double. -/
theorem nearest_eq_of_sameRatio {first second : Nat × Nat} (same : Decimal.SameRatio first second)
    (positive : 0 < first.2) (positiveSecond : 0 < second.2) :
    nearest first.1 first.2 = nearest second.1 second.2 := by
  rw [← nearest_mul_left positiveSecond first.1 first.2,
    ← nearest_mul_left positive second.1 second.2, Nat.mul_comm second.2 first.1, same,
    Nat.mul_comm first.2 second.1, Nat.mul_comm second.2 first.2]

theorem roundDiv_one (number : Nat) : roundDiv number 1 = number := by
  simp [roundDiv, Nat.mod_one]

theorem significand_add_scale (rank : Nat) :
    scale rank * 2 ^ 52 + significand rank = rank := by
  unfold significand scale
  simp only [Nat.pow_eq]
  omega

/-- Below the normal range the significand is short, in it it has 53 bits. -/
theorem significand_bounds (rank : Nat) :
    (scale rank = 0 ∧ significand rank < 2 ^ 53) ∨
      (2 ^ 52 ≤ significand rank ∧ significand rank < 2 ^ 53) := by
  unfold significand scale
  simp only [Nat.pow_eq]
  omega

/-- The exponent of a double is found again. -/
theorem log2_significand (rank : Nat) :
    (significand rank * 2 ^ scale rank).log2 - 52 = scale rank := by
  rcases significand_bounds rank with ⟨low, short⟩ | ⟨least, short⟩
  · rw [low, Nat.pow_zero, Nat.mul_one]
    rcases Nat.eq_zero_or_pos (significand rank) with zero | positive
    · rw [zero, Nat.log2_zero]
    · have log := (Nat.log2_lt (Nat.ne_of_gt positive)).mpr short
      omega
  · have positive : significand rank * 2 ^ scale rank ≠ 0 :=
      Nat.mul_ne_zero (by omega) (Nat.ne_of_gt (Nat.two_pow_pos _))
    have lower : 52 + scale rank ≤ (significand rank * 2 ^ scale rank).log2 := by
      rw [Nat.le_log2 positive, Nat.pow_add]
      exact Nat.mul_le_mul_right _ least
    have upper : (significand rank * 2 ^ scale rank).log2 < 53 + scale rank := by
      rw [Nat.log2_lt positive, Nat.pow_add]
      exact Nat.mul_lt_mul_of_pos_right short (Nat.two_pow_pos _)
    omega

theorem sameRatio_ratio (rank : Nat) {depth : Nat} (least : depth = 1074) :
    Decimal.SameRatio (ratio rank) (significand rank * 2 ^ scale rank, 2 ^ depth) := by
  unfold ratio
  rw [← least]
  split
  · next large =>
      rw [Decimal.sameRatio_mk, Nat.pow_eq, Nat.mul_assoc, ← Nat.pow_add,
        Nat.sub_add_cancel large, Nat.mul_one]
  · next small =>
      rw [Decimal.sameRatio_mk, Nat.pow_eq, Nat.mul_assoc, ← Nat.pow_add,
        Nat.add_sub_of_le (Nat.le_of_not_le small)]

theorem ratio_positive (rank : Nat) : 0 < (ratio rank).2 := by
  unfold ratio
  split
  · exact Nat.one_pos
  · exact Nat.two_pow_pos _

/-- The value of a double is rounded to that double. -/
theorem nearest_ratio {rank : Nat} (finite : rank ≤ infinityRank) :
    nearest (ratio rank).1 (ratio rank).2 = rank := by
  -- The exponent of the least double has a name, lest its power be computed.
  obtain ⟨depth, least⟩ : ∃ depth, depth = 1074 := ⟨1074, rfl⟩
  have exponent : scaleOfRatio (significand rank * 2 ^ scale rank) (2 ^ depth) = scale rank := by
    rw [scaleOfRatio, ← least, Nat.pow_eq, Nat.mul_div_cancel _ (Nat.two_pow_pos depth),
      log2_significand]
  have rounded : roundDiv (significand rank * 2 ^ scale rank * 2 ^ depth)
      (2 ^ depth * 2 ^ scale rank) = significand rank := by
    have factored : significand rank * 2 ^ scale rank * 2 ^ depth =
        2 ^ depth * 2 ^ scale rank * significand rank := by
      rw [Nat.mul_assoc, Nat.mul_comm, Nat.mul_comm (2 ^ scale rank)]
    rw [factored, ← Nat.mul_one (2 ^ depth * 2 ^ scale rank), Nat.mul_assoc _ 1, Nat.one_mul,
      roundDiv_mul_left (Nat.mul_pos (Nat.two_pow_pos _) (Nat.two_pow_pos _)), roundDiv_one]
  rw [nearest_eq_of_sameRatio (sameRatio_ratio rank least) (ratio_positive rank)
    (Nat.two_pow_pos depth)]
  simp only [nearest, exponent, ← least, Nat.pow_eq, rounded, significand_add_scale]
  exact Nat.min_eq_left finite

end Binary

namespace Decimal

open Binary

theorem ratio_positive (number : Decimal) : 0 < number.ratio.2 :=
  Nat.pow_pos (Nat.zero_lt_succ 9)

/-- What is read back from a decimal is rounded as the decimal is. -/
theorem exists_parse?_nearest (number : Decimal) :
    ∃ read, parse? number.render = some read ∧ read.nearest = number.nearest := by
  obtain ⟨read, found, same⟩ := exists_parse?_render number
  exact ⟨read, found, nearest_eq_of_sameRatio same read.ratio_positive number.ratio_positive⟩

/-- The whole expansion of a double has its value. -/
theorem sameRatio_exact (rank : Nat) : SameRatio (exact rank).ratio (Binary.ratio rank) := by
  unfold exact Binary.ratio SameRatio
  dsimp only
  split
  · simp [ratio]
  · next small =>
      simp only [ratio, Nat.pow_eq, Nat.pow_zero, Nat.mul_one]
      rw [Nat.mul_assoc, ← Nat.mul_pow]

theorem nearest_exact {rank : Nat} (finite : rank ≤ infinityRank) :
    (exact rank).nearest = rank := by
  rw [nearest, nearest_eq_of_sameRatio (sameRatio_exact rank) (exact rank).ratio_positive
    (Binary.ratio_positive rank)]
  exact nearest_ratio finite

theorem nearest_of_onGrid? {rank : Nat} {exponent : Int} {number : Decimal}
    (found : onGrid? rank exponent = some number) : number.nearest = rank :=
  eq_of_beq (List.find?_some (p := fun candidate : Decimal => candidate.nearest == rank) found)

/-- The digits chosen for a double are rounded to it. -/
theorem nearest_shortest {rank : Nat} (finite : rank ≤ infinityRank) :
    (shortest rank).nearest = rank := by
  unfold shortest
  dsimp only
  cases search : (List.range 20).findSome? fun (place : Nat) =>
      onGrid? rank (leadingExponent rank - place) with
  | none => exact nearest_exact finite
  | some number =>
      obtain ⟨place, -, found⟩ := List.exists_of_findSome?_eq_some search
      exact nearest_of_onGrid? found

end Decimal

namespace Number

open Binary

/-- The digits of a finite magnitude are read as it. -/
theorem exists_parse?_magnitude {rank : Nat} (finite : rank ≤ infinityRank) :
    ∃ number, Decimal.parse? (magnitude rank) = some number ∧ number.nearest = rank := by
  unfold magnitude
  split
  · next zero =>
      subst zero
      exact ⟨⟨0, 0, 0⟩, by decide, by decide +kernel⟩
  · obtain ⟨number, found, same⟩ := Decimal.exists_parse?_nearest (Decimal.shortest rank)
    exact ⟨number, found, same.trans (Decimal.nearest_shortest finite)⟩

theorem display_toFloat {rank : Nat} (finite : rank < infinityRank) :
    display (toFloat rank) = magnitude rank := by
  simp [display, rank_toFloat finite, isNegative_toFloat finite, Nat.lt_asymm finite,
    Nat.ne_of_lt finite]

/-- A finite double that is not negative is written as a numeral for itself. -/
theorem read?_display {rank : Nat} (finite : rank < infinityRank) :
    read? (display (toFloat rank)) = some (toFloat rank) := by
  obtain ⟨number, found, nearest⟩ := exists_parse?_magnitude (Nat.le_of_lt finite)
  rw [display_toFloat finite, read?, found, Option.map_some, nearest]

end Number

end LoxLang
