import LoxLang.Proofs.Number.Whole

/-!
The order of doubles.  Two doubles have a place to each other unless one is no number, and
the operators of the order and equality all go by that place.
-/

namespace LoxLang.Binary

open Float.Model

section

open UnpackedFloat

theorem compare_sign_swap (first second : Sign) :
    compare second first = (compare first second).swap := by
  cases first <;> cases second <;> rfl

/-- The other way round the comparison of parts is turned round. -/
theorem compare_swap (first second : UnpackedFloat) :
    second.compare first = (first.compare second).map Ordering.swap := by
  have magnitudes (exponent otherExponent : Int) (mantissa otherMantissa : Nat) :
      (compare otherExponent exponent).then (compare otherMantissa mantissa) =
        ((compare exponent otherExponent).then (compare mantissa otherMantissa)).swap := by
    rw [Ordering.swap_then, Int.compare_swap, Nat.compare_swap]
  cases first with
  | notANumber => cases second <;> rfl
  | infinity sign =>
      cases second with
      | infinity otherSign => exact congrArg some (compare_sign_swap sign otherSign)
      | _ => cases sign <;> rfl
  | zero sign =>
      cases second with
      | infinity otherSign => cases otherSign <;> rfl
      | finite otherSign _ _ _ => cases otherSign <;> rfl
      | _ => rfl
  | finite sign mantissa exponent _ =>
      cases second with
      | infinity otherSign => cases sign <;> cases otherSign <;> rfl
      | notANumber => cases sign <;> rfl
      | zero _ => cases sign <;> rfl
      | finite otherSign otherMantissa otherExponent _ =>
          have same := magnitudes exponent otherExponent mantissa otherMantissa
          cases sign <;> cases otherSign <;>
            simp [UnpackedFloat.compare, same]

theorem compare_eq_none_iff (first second : UnpackedFloat) :
    first.compare second = none ↔ first.isNaN = true ∨ second.isNaN = true := by
  unfold UnpackedFloat.compare
  split <;> simp_all [UnpackedFloat.isNaN]

end

/-- The place of a double to another. -/
def order (first second : Float) : Option Ordering :=
  (parts first).compare (parts second)

variable {first second : Float}

theorem order_swap (first second : Float) :
    order second first = (order first second).map Ordering.swap :=
  compare_swap (parts first) (parts second)

theorem order_eq_none_iff : order first second = none ↔ first.isNaN = true ∨ second.isNaN = true :=
  compare_eq_none_iff (parts first) (parts second)

theorem decide_lt : decide (first < second) = (order first second == some .lt) := by
  have same : first < second ↔ (order first second == some .lt) = true := by
    show decide (UnpackedFloat.lt (parts first) (parts second) = true) = true ↔ _
    rw [decide_eq_true_eq]
    rfl
  rw [Bool.eq_iff_iff, decide_eq_true_eq, same]

theorem decide_le : decide (first ≤ second) = (order first second).any (·.isLE) := by
  have same : first ≤ second ↔ (order first second).any (·.isLE) = true := by
    show decide (UnpackedFloat.le (parts first) (parts second) = true) = true ↔ _
    rw [decide_eq_true_eq]
    rfl
  rw [Bool.eq_iff_iff, decide_eq_true_eq, same]

theorem beq_eq : (first == second) = (order first second == some .eq) := rfl

end LoxLang.Binary
