import LoxLang.Proofs.Number.Order
import LoxLang.Proofs.Value.CharacterSum
import LoxLang.Value.Operators
import Mathlib.Order.Defs.LinearOrder

/-!
Equality and order of values.  Two numbers or texts, in any mixture, have one place to each
other unless one is no number, and equality and all four operators of the order go by it.
-/

namespace LoxLang

/-- The place of a text to another, by their bytes. -/
def Bytes.order (first second : Bytes) : Ordering :=
  compareOfLessAndEq first second

namespace Bytes

variable {first second : Bytes}

theorem order_eq_lt_iff : order first second = .lt ↔ first < second := by
  unfold order compareOfLessAndEq
  split
  · simp_all
  · split <;> simp_all

theorem order_eq_eq_iff : order first second = .eq ↔ first = second := by
  unfold order compareOfLessAndEq
  by_cases same : first = second
  · subst same
    simp [List.lt_irrefl]
  · split <;> simp_all

theorem order_swap (first second : Bytes) : order second first = (order first second).swap := by
  by_cases same : first = second
  · subst same
    rw [order_eq_eq_iff.mpr rfl]
    rfl
  · by_cases before : first < second
    · have after : ¬ second < first := List.lt_asymm before
      simp [order, compareOfLessAndEq, before, after, Ne.symm same]
    · have after : second < first := by
        by_contra notAfter
        exact same (List.le_antisymm notAfter before)
      simp [order, compareOfLessAndEq, before, after, same]

theorem le_iff : first ≤ second ↔ (order first second).isLE = true := by
  have swapped := order_swap first second
  show ¬ second < first ↔ _
  rw [← order_eq_lt_iff, swapped]
  cases order first second <;> decide

end Bytes

namespace Comparison

/-- The same comparison for exchanged operands. -/
def mirror : Comparison → Comparison
  | .less => .greater
  | .lessEqual => .greaterEqual
  | .greater => .less
  | .greaterEqual => .lessEqual

def operator : Comparison → BinaryOp
  | .less => .less
  | .lessEqual => .lessEqual
  | .greater => .greater
  | .greaterEqual => .greaterEqual

/-- Whether a comparison holds for what is at a place to each other. -/
def allows : Comparison → Ordering → Bool
  | .less, place => place == .lt
  | .lessEqual, place => place.isLE
  | .greater, place => place == .gt
  | .greaterEqual, place => place.isGE

theorem allows_swap (comparison : Comparison) (place : Ordering) :
    comparison.mirror.allows place.swap = comparison.allows place := by
  cases comparison <;> cases place <;> rfl

theorem operator_apply (comparison : Comparison) (left right : Value) :
    comparison.operator.apply left right = comparison.values left right := by
  cases comparison <;> rfl

theorem numbers_eq (comparison : Comparison) (left right : Float) :
    comparison.numbers left right = (Binary.order left right).any comparison.allows := by
  have swapped := Binary.order_swap left right
  cases comparison with
  | less =>
      refine Binary.decide_lt.trans ?_
      cases Binary.order left right <;> rfl
  | lessEqual => exact Binary.decide_le
  | greater =>
      refine Binary.decide_lt.trans ?_
      rw [swapped]
      rcases Binary.order left right with _ | _ | _ | _ <;> rfl
  | greaterEqual =>
      refine Binary.decide_le.trans ?_
      rw [swapped]
      rcases Binary.order left right with _ | _ | _ | _ <;> rfl

theorem texts_eq (comparison : Comparison) (left right : Bytes) :
    comparison.texts left right = comparison.allows (Bytes.order left right) := by
  have swapped := Bytes.order_swap left right
  rw [Bool.eq_iff_iff]
  cases comparison with
  | less => simp [texts, allows, Bytes.order_eq_lt_iff]
  | lessEqual => simp [texts, allows, Bytes.le_iff]
  | greater =>
      simp only [texts, allows, gt_iff_lt, decide_eq_true_eq, ← Bytes.order_eq_lt_iff, swapped]
      cases Bytes.order left right <;> decide
  | greaterEqual =>
      simp only [texts, allows, ge_iff_le, decide_eq_true_eq, Bytes.le_iff, swapped]
      cases Bytes.order left right <;> decide

end Comparison

namespace Value

/-- Whether a value is a number or a text, which the order is for. -/
def isOrdered : Value → Bool
  | .number _ => true
  | .string _ => true
  | _ => false

def isNaN : Value → Bool
  | .number value => value.isNaN
  | _ => false

/-- The place of an ordered value to another, which there is unless one is no number. -/
def order : Value → Value → Option Ordering
  | .number left, .number right => Binary.order left right
  | .number left, .string right => Binary.order left (characterSum right)
  | .string left, .number right => Binary.order (characterSum left) right
  | .string left, .string right => some (Bytes.order left right)
  | _, _ => none

variable {left right : Value}

theorem order_swap (left right : Value) :
    right.order left = (left.order right).map Ordering.swap := by
  cases left <;> cases right
  case number.number left right => exact Binary.order_swap left right
  case number.string left right => exact Binary.order_swap left (characterSum right)
  case string.number left right => exact Binary.order_swap (characterSum left) right
  case string.string left right => exact congrArg some (Bytes.order_swap left right)
  all_goals rfl

/-- A text always has a place to a number, since its character sum is one. -/
theorem order_eq_none_iff (leftOrdered : left.isOrdered = true)
    (rightOrdered : right.isOrdered = true) :
    left.order right = none ↔ left.isNaN = true ∨ right.isNaN = true := by
  have ofText (text : Bytes) :
      (characterSum text).isNaN = true ↔ isNaN (.string text) = true := by
    rw [isNaN_characterSum]
    exact Iff.rfl
  cases left <;> cases leftOrdered <;> cases right <;> cases rightOrdered
  case number.refl.number.refl => exact Binary.order_eq_none_iff
  case number.refl.string.refl left right =>
    exact Binary.order_eq_none_iff.trans (or_congr Iff.rfl (ofText right))
  case string.refl.number.refl left right =>
    exact Binary.order_eq_none_iff.trans (or_congr (ofText left) Iff.rfl)
  case string.refl.string.refl => simp [order, isNaN]

theorem equals_eq (leftOrdered : left.isOrdered = true) (rightOrdered : right.isOrdered = true) :
    left.equals right = (left.order right == some .eq) := by
  cases left <;> cases leftOrdered <;> cases right <;> cases rightOrdered
  case string.refl.string.refl left right =>
    rw [Bool.eq_iff_iff]
    simp [equals, order, Bytes.order_eq_eq_iff]
  all_goals exact Binary.beq_eq

theorem values_eq (leftOrdered : left.isOrdered = true) (rightOrdered : right.isOrdered = true)
    (comparison : Comparison) :
    comparison.values left right = .ok (.bool ((left.order right).any comparison.allows)) := by
  cases left <;> cases leftOrdered <;> cases right <;> cases rightOrdered
  case string.refl.string.refl left right =>
    exact congrArg (fun holds => Except.ok (Value.bool holds)) (comparison.texts_eq left right)
  all_goals
    exact congrArg (fun holds => Except.ok (Value.bool holds)) (comparison.numbers_eq _ _)

theorem values_eq_error (notOrdered : left.isOrdered = false ∨ right.isOrdered = false)
    (comparison : Comparison) : comparison.values left right = .error .operandsNotOrdered := by
  cases left <;> cases right <;> first | rfl | simp [isOrdered] at notOrdered

theorem equals_comm (left right : Value) : left.equals right = right.equals left := by
  by_cases bothOrdered : left.isOrdered = true ∧ right.isOrdered = true
  · obtain ⟨leftOrdered, rightOrdered⟩ := bothOrdered
    rw [equals_eq leftOrdered rightOrdered, equals_eq rightOrdered leftOrdered,
      order_swap left right]
    rcases left.order right with _ | _ | _ | _ <;> rfl
  · cases left <;> cases right <;> simp_all [isOrdered, equals, Bool.beq_comm]

end Value

/-- Equality and the four operators of the order agree with each other on all values. -/
theorem comparisons_agree (left right : Value) :
    left.equals right = right.equals left ∧
      (left.isOrdered = true → right.isOrdered = true →
        ∃ holds : Comparison → Bool,
          (∀ comparison : Comparison,
            comparison.operator.apply left right = .ok (.bool (holds comparison)) ∧
              comparison.mirror.operator.apply right left = .ok (.bool (holds comparison))) ∧
          (left.isNaN = false → right.isNaN = false →
            [holds .less, left.equals right, holds .greater].count true = 1 ∧
              holds .lessEqual = (holds .less || left.equals right)) ∧
          (left.isNaN = true ∨ right.isNaN = true →
            left.equals right = false ∧ ∀ comparison, holds comparison = false)) ∧
      (left.isOrdered = false ∨ right.isOrdered = false →
        Fault.operandsNotOrdered.message = Bytes.ofString "Operands must be numbers or strings." ∧
          ∀ comparison : Comparison,
            comparison.operator.apply left right = .error .operandsNotOrdered ∧
              comparison.operator.apply right left = .error .operandsNotOrdered) := by
  refine ⟨Value.equals_comm left right, fun leftOrdered rightOrdered => ?_, fun notOrdered => ?_⟩
  · refine ⟨fun comparison => (left.order right).any comparison.allows, fun comparison => ?_, ?_, ?_⟩
    · rw [Comparison.operator_apply, Comparison.operator_apply,
        Value.values_eq leftOrdered rightOrdered, Value.values_eq rightOrdered leftOrdered,
        Value.order_swap left right, Option.any_map]
      refine ⟨rfl, ?_⟩
      congr 3
      funext place
      exact comparison.allows_swap place
    · intro leftNumber rightNumber
      rw [Value.equals_eq leftOrdered rightOrdered]
      rcases found : left.order right with _ | place
      · rcases (Value.order_eq_none_iff leftOrdered rightOrdered).mp found with isNaN | isNaN
        · cases isNaN.symm.trans leftNumber
        · cases isNaN.symm.trans rightNumber
      · cases place <;> decide
    · intro isNaN
      rw [Value.equals_eq leftOrdered rightOrdered,
        (Value.order_eq_none_iff leftOrdered rightOrdered).mpr isNaN]
      exact ⟨rfl, fun _ => rfl⟩
  · refine ⟨rfl, fun comparison => ?_⟩
    rw [Comparison.operator_apply, Comparison.operator_apply]
    exact ⟨Value.values_eq_error notOrdered comparison,
      Value.values_eq_error notOrdered.symm comparison⟩

/-- A text equals the number it counts as both ways round, has no place to what is no number,
and is not ordered with `nil`. -/
theorem comparisons_agree_text :
    (Value.string [0x61]).equals (.number 97) = true ∧
      (Value.number 97).equals (.string [0x61]) = true ∧
      (∃ holds : Comparison → Bool,
        (∀ comparison : Comparison,
          comparison.operator.apply (.string [0x61]) (.number (0 / 0)) =
            .ok (.bool (holds comparison))) ∧
          ∀ comparison, holds comparison = false) ∧
      ∀ comparison : Comparison,
        comparison.operator.apply (.string [0x61]) .nil = .error .operandsNotOrdered := by
  obtain ⟨same, -, -⟩ := comparisons_agree (.string [0x61]) (.number 97)
  obtain ⟨-, ordered, -⟩ := comparisons_agree (.string [0x61]) (.number (0 / 0))
  obtain ⟨-, -, notOrdered⟩ := comparisons_agree (.string [0x61]) .nil
  obtain ⟨holds, succeeds, -, fails⟩ := ordered rfl rfl
  have counts : (Value.string [0x61]).equals (.number 97) = true := by decide +kernel
  refine ⟨counts, same.symm.trans counts,
    ⟨holds, fun comparison => (succeeds comparison).1, ?_⟩, fun comparison => ?_⟩
  · exact (fails (.inr (by decide +kernel))).2
  · exact ((notOrdered (.inr rfl)).2 comparison).1

end LoxLang
