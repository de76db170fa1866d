import Mathlib.Algebra.GroupWithZero.Nat
import Mathlib.Data.List.TakeWhile
import LoxLang.Number.Decimal

/-!
Digits of naturals.  A natural is written in decimal digits, and reading them gives it back.
A decimal is written as a numeral of the same value.
-/

namespace LoxLang

namespace Bytes

theorem ofString_append (first second : String) :
    ofString (first ++ second) = ofString first ++ ofString second := by
  simp [ofString]

theorem ofNat_of_lt : ∀ number < 10, ofNat number = [(48 + number).toUInt8] := by
  decide +kernel

theorem ofNat_of_ge {number : Nat} (large : 10 ≤ number) :
    ofNat number = ofNat (number / 10) ++ [(48 + number % 10).toUInt8] := by
  rw [← ofNat_of_lt (number % 10) (Nat.mod_lt number (by decide)), ofNat,
    Nat.repr_eq_repr_append_repr large, ofString_append]
  rfl

theorem isDigit_ofDigit : ∀ digit < 10, isDigit (48 + digit).toUInt8 = true := by
  decide

/-- A natural is written in digits alone, and in one at least. -/
theorem isDigit_ofNat (number : Nat) : ∀ byte ∈ ofNat number, isDigit byte = true := by
  induction number using Nat.strongRecOn with
  | _ number inductionHypothesis =>
      intro byte member
      by_cases small : number < 10
      · rw [ofNat_of_lt number small, List.mem_singleton] at member
        rw [member]
        exact isDigit_ofDigit number small
      · rw [ofNat_of_ge (Nat.le_of_not_lt small), List.mem_append, List.mem_singleton] at member
        rcases member with inHigh | rfl
        · exact inductionHypothesis (number / 10) (by omega) byte inHigh
        · exact isDigit_ofDigit _ (Nat.mod_lt number (by decide))

theorem ofNat_ne_nil (number : Nat) : ofNat number ≠ [] := by
  by_cases small : number < 10
  · rw [ofNat_of_lt number small]
    exact List.cons_ne_nil _ _
  · rw [ofNat_of_ge (Nat.le_of_not_lt small)]
    exact List.concat_ne_nil _ _

/-- A number below a power of ten has at most as many digits as the power has zeros. -/
theorem length_ofNat_le {number places : Nat} (positive : 0 < places)
    (below : number < 10 ^ places) : (ofNat number).length ≤ places := by
  induction places generalizing number with
  | zero => exact absurd positive (Nat.lt_irrefl 0)
  | succ places inductionHypothesis =>
      by_cases small : number < 10
      · rw [ofNat_of_lt number small]
        exact Nat.le_add_left 1 places
      · have large := Nat.le_of_not_lt small
        have further : 0 < places := by
          rcases Nat.eq_zero_or_pos places with rfl | further
          · rw [Nat.zero_add, Nat.pow_one] at below
            exact absurd below small
          · exact further
        have high : number / 10 < 10 ^ places :=
          Nat.div_lt_of_lt_mul (by rwa [← Nat.pow_succ'])
        rw [ofNat_of_ge large, List.length_append]
        exact Nat.succ_le_succ (inductionHypothesis further high)

/-- What is trimmed off satisfies the test. -/
theorem exists_trimEndWhile (test : UInt8 → Bool) (text : Bytes) :
    ∃ trimmed, text = trimEndWhile test text ++ trimmed ∧ ∀ byte ∈ trimmed, test byte = true := by
  refine ⟨(text.reverse.takeWhile test).reverse, ?_, fun byte member => ?_⟩
  · rw [trimEndWhile, ← List.reverse_append, List.takeWhile_append_dropWhile, List.reverse_reverse]
  · exact List.mem_takeWhile_imp (List.mem_reverse.mp member)

end Bytes

namespace Decimal

theorem digitsValue_append (first second : Bytes) (high : Nat) :
    digitsValue (first ++ second) high = digitsValue second (digitsValue first high) :=
  List.foldl_append

theorem digitsValue_ofDigit {digit : Nat} (small : digit < 10) (high : Nat) :
    digitsValue [(48 + digit).toUInt8] high = 10 * high + digit := by
  have value : (48 + digit).toUInt8.toNat - 48 = digit := by
    simp only [Nat.toUInt8_eq, UInt8.toNat_ofNat']
    omega
  simp only [digitsValue, List.foldl_cons, List.foldl_nil, value]

/-- Digits are read back, behind others. -/
theorem digitsValue_ofNat (number high : Nat) : digitsValue (Bytes.ofNat number) high =
    high * 10 ^ (Bytes.ofNat number).length + number := by
  induction number using Nat.strongRecOn generalizing high with
  | _ number inductionHypothesis =>
      by_cases small : number < 10
      · rw [Bytes.ofNat_of_lt number small, digitsValue_ofDigit small, List.length_singleton,
          Nat.pow_one, Nat.mul_comm]
      · rw [Bytes.ofNat_of_ge (Nat.le_of_not_lt small), digitsValue_append,
          inductionHypothesis (number / 10) (by omega),
          digitsValue_ofDigit (Nat.mod_lt number (by decide)), List.length_append,
          List.length_singleton, Nat.pow_succ']
        have split := Nat.div_add_mod number 10
        have commuted : high * (10 * 10 ^ (Bytes.ofNat (number / 10)).length) =
          10 * (high * 10 ^ (Bytes.ofNat (number / 10)).length) := Nat.mul_left_comm ..
        omega

/-- A zero at the end is a factor of ten. -/
theorem digitsValue_of_zeros {zeros : Bytes} (only : ∀ byte ∈ zeros, (byte == 48) = true)
    (high : Nat) : digitsValue zeros high = high * 10 ^ zeros.length := by
  induction zeros generalizing high with
  | nil => exact (Nat.mul_one high).symm
  | cons byte zeros inductionHypothesis =>
      obtain ⟨isZero, others⟩ := List.forall_mem_cons.mp only
      obtain rfl : byte = 48 := by simpa using isZero
      have first : digitsValue (48 :: zeros) high = digitsValue zeros (10 * high) := rfl
      rw [first, inductionHypothesis others, List.length_cons, Nat.pow_succ', Nat.mul_comm 10 high,
        Nat.mul_assoc]

/-- The two ratios are the same number. -/
def SameRatio (first second : Nat × Nat) : Prop :=
  first.1 * second.2 = second.1 * first.2

theorem sameRatio_mk {numerator denominator other otherDenominator : Nat} :
    SameRatio (numerator, denominator) (other, otherDenominator) ↔
      numerator * otherDenominator = other * denominator :=
  Iff.rfl

theorem parse?_of_digits {text : Bytes} (nonempty : text ≠ [])
    (digits : ∀ byte ∈ text, Bytes.isDigit byte = true) :
    parse? text = some ⟨digitsValue text 0, 0, 0⟩ := by
  simp only [parse?, List.takeWhile_eq_self_iff.mpr digits, List.dropWhile_eq_nil_iff.mpr digits,
    List.isEmpty_iff, if_neg nonempty]

theorem parse?_of_fraction {whole fraction : Bytes} (nonempty : whole ≠ [])
    (digits : ∀ byte ∈ whole, Bytes.isDigit byte = true)
    (fractionDigits : ∀ byte ∈ fraction, Bytes.isDigit byte = true) :
    parse? (whole ++ 46 :: fraction) =
      some ⟨digitsValue fraction (digitsValue whole 0), 0, fraction.length⟩ := by
  have taken : (whole ++ 46 :: fraction).takeWhile Bytes.isDigit = whole := by
    rw [List.takeWhile_append_of_pos digits]
    simp [Bytes.isDigit]
  have dropped : (whole ++ 46 :: fraction).dropWhile Bytes.isDigit = 46 :: fraction := by
    rw [List.dropWhile_append_of_pos digits]
    simp [Bytes.isDigit]
  simp only [parse?, taken, dropped, List.all_eq_true.mpr fractionDigits]
  simp [nonempty]

/-- The digits behind the point, before zeros at their end are cut off. -/
def padded (number : Decimal) : Bytes :=
  let low := Bytes.ofNat (number.digits * Nat.pow 10 number.zeros % Nat.pow 10 number.places)
  List.replicate (number.places - low.length) 48 ++ low

theorem length_padded {number : Decimal} (positive : 0 < number.places) :
    number.padded.length = number.places := by
  have below := Nat.mod_lt (number.digits * Nat.pow 10 number.zeros)
    (Nat.pow_pos (n := number.places) (Nat.zero_lt_succ 9))
  have short := Bytes.length_ofNat_le positive below
  rw [padded, List.length_append, List.length_replicate]
  exact Nat.sub_add_cancel short

theorem isDigit_padded (number : Decimal) : ∀ byte ∈ number.padded, Bytes.isDigit byte = true := by
  intro byte member
  rcases List.mem_append.mp member with inZeros | inLow
  · rw [List.eq_of_mem_replicate inZeros]
    rfl
  · exact Bytes.isDigit_ofNat _ byte inLow

/-- The digits on both sides of the point together. -/
theorem digitsValue_padded {number : Decimal} (positive : 0 < number.places) :
    digitsValue number.padded
        (number.digits * Nat.pow 10 number.zeros / Nat.pow 10 number.places) =
      number.digits * Nat.pow 10 number.zeros := by
  have length := length_padded positive
  rw [padded, List.length_append] at length
  have split := Nat.div_add_mod (number.digits * Nat.pow 10 number.zeros)
    (Nat.pow 10 number.places)
  rw [padded, digitsValue_append, digitsValue_ofNat, digitsValue_of_zeros (by simp),
    Nat.mul_assoc, ← Nat.pow_add, length, Nat.mul_comm]
  exact split

/-- Zeros at the end of a fraction do not count. -/
theorem SameRatio.ofZeros {kept zeros : Bytes} {whole value : Nat}
    (only : ∀ byte ∈ zeros, (byte == 48) = true)
    (same : digitsValue (kept ++ zeros) whole = value) :
    SameRatio (ratio ⟨digitsValue kept whole, 0, kept.length⟩)
      (value, Nat.pow 10 (kept ++ zeros).length) := by
  rw [digitsValue_append, digitsValue_of_zeros only] at same
  show digitsValue kept whole * 10 ^ 0 * 10 ^ (kept ++ zeros).length = value * 10 ^ kept.length
  rw [← same, List.length_append, Nat.pow_add, Nat.pow_zero, Nat.mul_one, Nat.mul_right_comm,
    Nat.mul_assoc]

/-- The point and the digits behind it are written unless these are all zeros. -/
theorem render_of_places {number : Decimal} (positive : 0 < number.places) :
    number.render =
      if (Bytes.trimEndWhile (· == 48) number.padded).isEmpty then
        Bytes.ofNat (number.digits * Nat.pow 10 number.zeros / Nat.pow 10 number.places)
      else
        Bytes.ofNat (number.digits * Nat.pow 10 number.zeros / Nat.pow 10 number.places) ++
          46 :: Bytes.trimEndWhile (· == 48) number.padded := by
  rw [render, if_neg (Nat.ne_of_gt positive)]
  rfl

/-- A decimal is read back from its written form. -/
theorem exists_parse?_render (number : Decimal) :
    ∃ read, parse? number.render = some read ∧ SameRatio read.ratio number.ratio := by
  have readWhole (value : Nat) : parse? (Bytes.ofNat value) = some ⟨value, 0, 0⟩ := by
    rw [parse?_of_digits (Bytes.ofNat_ne_nil value) (Bytes.isDigit_ofNat value),
      digitsValue_ofNat, Nat.zero_mul, Nat.zero_add]
  rcases Nat.eq_zero_or_pos number.places with whole | positive
  · refine ⟨⟨number.digits * Nat.pow 10 number.zeros, 0, 0⟩, ?_, ?_⟩
    · rw [render, if_pos whole, whole]
      simpa using readWhole (number.digits * Nat.pow 10 number.zeros)
    · simp [SameRatio, ratio, whole]
  · have value := digitsValue_padded positive
    have length := length_padded positive
    obtain ⟨zeros, split, only⟩ := Bytes.exists_trimEndWhile (· == 48) number.padded
    have digits := isDigit_padded number
    rw [render_of_places positive]
    generalize Bytes.trimEndWhile (· == 48) number.padded = kept at split
    rw [split] at value length digits
    have same := SameRatio.ofZeros only value
    rw [length] at same
    cases kept with
    | nil => exact ⟨_, readWhole _, same⟩
    | cons first others =>
        refine ⟨_, parse?_of_fraction (Bytes.ofNat_ne_nil _) (Bytes.isDigit_ofNat _)
          fun byte member => digits byte (List.mem_append_left zeros member), ?_⟩
        rw [digitsValue_ofNat, Nat.zero_mul, Nat.zero_add]
        exact same

end Decimal

end LoxLang
