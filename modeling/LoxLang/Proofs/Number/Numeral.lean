import LoxLang.Proofs.Number.Nearest
import LoxLang.Proofs.Number.Whole
import LoxLang.Proofs.Token.Lexemes

/-!
Numerals of doubles.  A finite magnitude is written in digits, without an exponent and
without superfluous zeros behind the point, and whole magnitudes are written without a point.
-/

namespace LoxLang

/-- Digits, and where a point stands behind them, digits that do not end in a zero. -/
inductive IsNumeral : Bytes → Prop where
  | whole {digits : Bytes} : IsDigits digits → IsNumeral digits
  | decimal {digits fraction : Bytes} : IsDigits digits → IsDigits fraction →
      fraction.getLast? ≠ some 48 → IsNumeral (digits ++ Chunk.point :: fraction)

theorem IsNumeral.lexeme {numeral : Bytes} (isNumeral : IsNumeral numeral) :
    Lexeme .number numeral := by
  cases isNumeral with
  | whole isDigits => exact .whole isDigits
  | decimal isDigits isFraction _ => exact .decimal isDigits isFraction

/-- A numeral consists of digits and points. -/
theorem IsNumeral.eq_point_or_isDigit {numeral : Bytes} (isNumeral : IsNumeral numeral) :
    ∀ byte ∈ numeral, byte = Chunk.point ∨ Bytes.isDigit byte = true := by
  intro byte member
  cases isNumeral with
  | whole isDigits => exact .inr (isDigits.2 byte member)
  | decimal isDigits isFraction _ =>
      rcases List.mem_append.mp member with inWhole | inRest
      · exact .inr (isDigits.2 byte inWhole)
      · rcases List.mem_cons.mp inRest with isPoint | inFraction
        · exact .inl isPoint
        · exact .inr (isFraction.2 byte inFraction)

theorem IsNumeral.not_mem {numeral : Bytes} (isNumeral : IsNumeral numeral) {byte : UInt8}
    (notPoint : byte ≠ Chunk.point) (notDigit : Bytes.isDigit byte = false) : byte ∉ numeral := by
  intro member
  rcases isNumeral.eq_point_or_isDigit byte member with isPoint | isDigit
  · exact notPoint isPoint
  · exact Bool.false_ne_true (notDigit.symm.trans isDigit)

namespace Bytes

theorem isDigits_ofNat (number : Nat) : IsDigits (ofNat number) :=
  ⟨ofNat_ne_nil number, isDigit_ofNat number⟩

/-- What is left ends in something that is not trimmed off. -/
theorem getLast?_trimEndWhile (test : UInt8 → Bool) (text : Bytes) :
    ∀ byte ∈ (trimEndWhile test text).getLast?, test byte = false := by
  intro byte member
  rw [trimEndWhile, List.getLast?_reverse] at member
  have passes := List.head?_dropWhile_not test text.reverse
  rw [Option.mem_def.mp member] at passes
  exact passes

theorem trimEndWhile_eq_nil {test : UInt8 → Bool} {text : Bytes}
    (all : ∀ byte ∈ text, test byte = true) : trimEndWhile test text = [] := by
  have dropped : text.reverse.dropWhile test = [] :=
    List.dropWhile_eq_nil_iff.mpr fun byte member => all byte (List.mem_reverse.mp member)
  rw [trimEndWhile, dropped]
  rfl

end Bytes

namespace Decimal

/-- The decimal has nothing behind its point. -/
def IsWhole (number : Decimal) : Prop :=
  10 ^ number.places ∣ number.digits * 10 ^ number.zeros

theorem isNumeral_render (number : Decimal) : IsNumeral number.render := by
  rcases Nat.eq_zero_or_pos number.places with whole | positive
  · rw [render, if_pos whole]
    exact .whole (Bytes.isDigits_ofNat _)
  · obtain ⟨zeros, split, -⟩ := Bytes.exists_trimEndWhile (· == 48) number.padded
    have last := Bytes.getLast?_trimEndWhile (· == 48) number.padded
    rw [render_of_places positive]
    generalize Bytes.trimEndWhile (· == 48) number.padded = kept at split last
    by_cases none : kept = []
    · rw [none]
      exact .whole (Bytes.isDigits_ofNat _)
    · rw [if_neg (by simpa using none)]
      refine .decimal (Bytes.isDigits_ofNat _) ⟨none, fun byte member => ?_⟩ fun isZero => ?_
      · have inside : byte ∈ number.padded := split ▸ List.mem_append_left zeros member
        exact isDigit_padded number byte inside
      · exact Bool.false_ne_true (last 48 isZero).symm

/-- A whole decimal is written without a point. -/
theorem point_not_mem_render {number : Decimal} (whole : number.IsWhole) :
    Chunk.point ∉ number.render := by
  have plain (value : Nat) : Chunk.point ∉ Bytes.ofNat value := fun member => by
    cases Bytes.isDigit_ofNat value Chunk.point member
  rcases Nat.eq_zero_or_pos number.places with none | positive
  · rw [render, if_pos none]
    exact plain _
  · have low : number.digits * Nat.pow 10 number.zeros % Nat.pow 10 number.places = 0 :=
      Nat.mod_eq_zero_of_dvd whole
    have zeros : ∀ byte ∈ number.padded, (byte == 48) = true := by
      intro byte member
      rw [padded, low] at member
      rcases List.mem_append.mp member with inZeros | inLow
      · rw [List.eq_of_mem_replicate inZeros]
        rfl
      · rw [Bytes.ofNat_of_lt 0 (by decide), List.mem_singleton] at inLow
        rw [inLow]
        rfl
    rw [render_of_places positive, Bytes.trimEndWhile_eq_nil zeros]
    exact plain _

end Decimal

namespace Binary

open Float.Model

/-- The significand of a double times its power of two is a whole number. -/
def IsIntegral (value : Float) : Prop :=
  match parts value with
  | .zero _ => True
  | .finite _ mantissa exponent _ => 2 ^ (-exponent).toNat ∣ mantissa
  | .infinity _ | .notANumber => False

section

open UnpackedFloat

variable {value : Float}

/-- The ratio of a magnitude is its significand over a power of two. -/
theorem ratio_dvd {rank : Nat} (whole : 2 ^ (1074 - scale rank) ∣ significand rank) :
    (ratio rank).2 ∣ (ratio rank).1 := by
  unfold ratio
  split
  · exact Nat.one_dvd _
  · exact whole

/-- The significand of a whole double has the factors of two that its ratio divides by. -/
theorem dvd_significand (finite : value.isFinite = true) (integral : IsIntegral value) :
    2 ^ (1074 - scale (rank value)) ∣ significand (rank value) := by
  have whole := rank_eq value
  have mantissa := @mantissa_lt value
  have bias : (Format.binary64.exponentBias : Int) = 1023 := rfl
  have unpacked : parts value = UnpackedFloat.unpack .binary64 (fields value) := rfl
  rw [IsIntegral, unpacked] at integral
  unfold UnpackedFloat.unpack at integral
  simp only [if_neg (isFinite_iff.mp finite)] at integral
  by_cases subnormal : unpackExponent (fields value) = 0#_
  · have least : (unpackExponent (fields value)).toNat = 0 := by
      rw [subnormal]
      rfl
    have noScale : scale (rank value) = 0 := by
      simp only [scale, Nat.pow_eq]
      omega
    have short : significand (rank value) = (unpackMantissa (fields value)).toNat := by
      simp only [significand, noScale]
      omega
    simp only [if_pos subnormal] at integral
    rw [short]
    by_cases zero : unpackMantissa (fields value) = 0#_
    · rw [zero, BitVec.toNat_zero]
      exact Nat.dvd_zero _
    · have depth : (-((unpackExponent (fields value)).toNat -
          (Format.binary64.exponentBias + (52 : Nat) : Int) + 1)).toNat =
            1074 - scale (rank value) := by
        omega
      simp only [dif_neg zero, depth] at integral
      exact integral
  · have positive : (unpackExponent (fields value)).toNat ≠ 0 := fun none =>
      subnormal (BitVec.eq_of_toNat_eq none)
    have steps : scale (rank value) = (unpackExponent (fields value)).toNat - 1 := by
      simp only [scale, Nat.pow_eq]
      omega
    have long : significand (rank value) = (1#1 ++ unpackMantissa (fields value)).toNat := by
      rw [toNat_one_append, significand, steps]
      simp only [Nat.pow_eq]
      have split : (unpackExponent (fields value)).toNat * 2 ^ 52 =
          ((unpackExponent (fields value)).toNat - 1) * 2 ^ 52 + 2 ^ 52 := by
        omega
      omega
    have depth : (-((unpackExponent (fields value)).toNat -
        (Format.binary64.exponentBias + (52 : Nat) : Int))).toNat =
          1074 - scale (rank value) := by
      omega
    simp only [if_neg subnormal, depth] at integral
    rw [long]
    exact integral

end

end Binary

namespace Decimal

open Binary

variable {rank : Nat}

theorem significand_pos (positive : rank ≠ 0) : 0 < significand rank := by
  have bounds := significand_bounds rank
  have whole := significand_add_scale rank
  rcases bounds with ⟨low, -⟩ | ⟨least, -⟩
  · rw [low] at whole
    omega
  · exact Nat.lt_of_lt_of_le (by decide) least

theorem ratio_pos (positive : rank ≠ 0) : 0 < (Binary.ratio rank).1 := by
  have long := significand_pos positive
  unfold Binary.ratio
  split
  · exact Nat.mul_pos long (Nat.two_pow_pos _)
  · exact long

/-- A whole number has a digit left of the point. -/
theorem leadingExponent_nonneg (positive : rank ≠ 0)
    (whole : (Binary.ratio rank).2 ∣ (Binary.ratio rank).1) : 0 ≤ leadingExponent rank := by
  have below := Nat.le_of_dvd (ratio_pos positive) whole
  have logs : (Binary.ratio rank).2.log2 ≤ (Binary.ratio rank).1.log2 :=
    (Nat.le_log2 (Nat.ne_of_gt (ratio_pos positive))).mpr
      ((Nat.log2_self_le (Nat.ne_of_gt (Binary.ratio_positive rank))).trans below)
  unfold leadingExponent
  dsimp only
  omega

/-- A whole number stands on the grid of step one. -/
theorem onGrid?_zero (finite : rank ≤ infinityRank)
    (whole : (Binary.ratio rank).2 ∣ (Binary.ratio rank).1) : onGrid? rank 0 ≠ none := by
  have positive := Binary.ratio_positive rank
  have same : (onGrid ((Binary.ratio rank).1 / (Binary.ratio rank).2) 0).nearest = rank := by
    have ratios : SameRatio
        (onGrid ((Binary.ratio rank).1 / (Binary.ratio rank).2) 0).ratio (Binary.ratio rank) := by
      simp [SameRatio, onGrid, ratio, Nat.div_mul_cancel whole]
    rw [nearest, nearest_eq_of_sameRatio ratios (ratio_positive _) positive]
    exact nearest_ratio finite
  have exactly : (Binary.ratio rank).1 % (Binary.ratio rank).2 = 0 := Nat.mod_eq_zero_of_dvd whole
  simp [onGrid?, exactly, positive, same]

theorem isWhole_onGrid? {exponent : Int} {number : Decimal} (above : 0 ≤ exponent)
    (found : onGrid? rank exponent = some number) : number.IsWhole := by
  have noPlaces (digits : Nat) : (onGrid digits exponent).IsWhole := by
    have none : (-exponent).toNat = 0 := by omega
    rw [IsWhole, onGrid, none, Nat.pow_zero]
    exact Nat.one_dvd _
  have member := List.mem_of_find?_eq_some found
  split at member
  all_goals
    simp only [List.mem_cons, List.not_mem_nil, or_false] at member
    rcases member with rfl | rfl
    · exact noPlaces _
    · exact noPlaces _

theorem isWhole_exact (whole : 2 ^ (1074 - scale rank) ∣ significand rank) :
    (exact rank).IsWhole := by
  unfold exact
  dsimp only
  split
  · exact Nat.one_dvd _
  · have powers : (10 : Nat) ^ (1074 - scale rank) =
        2 ^ (1074 - scale rank) * 5 ^ (1074 - scale rank) := Nat.mul_pow 2 5 _
    show 10 ^ (1074 - scale rank) ∣ significand rank * 5 ^ (1074 - scale rank) * 10 ^ 0
    rw [Nat.pow_zero, Nat.mul_one, powers]
    exact Nat.mul_dvd_mul_right whole _

/-- The search for digits ends at step one at the latest. -/
theorem isWhole_shortest (positive : rank ≠ 0) (finite : rank ≤ infinityRank)
    (whole : 2 ^ (1074 - scale rank) ∣ significand rank) : (shortest rank).IsWhole := by
  have divides := ratio_dvd whole
  have above := leadingExponent_nonneg positive divides
  unfold shortest
  dsimp only
  cases search : (List.range 20).findSome? fun (place : Nat) =>
      onGrid? rank (leadingExponent rank - place) with
  | none => exact isWhole_exact whole
  | some number =>
      obtain ⟨coarser, place, finer, tried, found, missed⟩ := List.findSome?_eq_some_iff.mp search
      by_cases inside : (place : Int) ≤ leadingExponent rank
      · exact isWhole_onGrid? (by omega) found
      · -- Step one was tried before this one.
        obtain ⟨units, top⟩ := Int.eq_ofNat_of_zero_le above
        rw [List.range_eq_range', List.range'_eq_append_iff] at tried
        obtain ⟨before, -, rfl, rest⟩ := tried
        obtain ⟨first, -, -⟩ := List.range'_eq_cons_iff.mp rest.symm
        have earlier : units ∈ List.range' 0 before := List.mem_range'_1.mpr (by omega)
        have atOne := missed units earlier
        rw [top, Int.sub_self] at atOne
        exact absurd atOne (onGrid?_zero finite divides)

end Decimal

namespace Number

open Binary

theorem isNumeral_magnitude (rank : Nat) : IsNumeral (magnitude rank) := by
  unfold magnitude
  split
  · refine .whole ⟨List.cons_ne_nil 48 [], fun byte member => ?_⟩
    cases List.mem_singleton.mp member
    decide
  · exact Decimal.isNumeral_render _

theorem point_not_mem_magnitude {rank : Nat} (finite : rank ≤ infinityRank)
    (whole : 2 ^ (1074 - scale rank) ∣ significand rank) : Chunk.point ∉ magnitude rank := by
  unfold magnitude
  split
  · decide
  · next positive =>
      exact Decimal.point_not_mem_render (Decimal.isWhole_shortest positive finite whole)

/-- A finite double is written as its magnitude behind its sign. -/
theorem display_eq {value : Float} (finite : value.isFinite = true) :
    display value = (if isNegative value then Bytes.ofString "-" else []) ++
      magnitude (rank value) := by
  have below := isFinite_iff_rank.mp finite
  simp only [display, if_neg (Nat.lt_asymm below), if_neg (Nat.ne_of_lt below)]

end Number

end LoxLang
