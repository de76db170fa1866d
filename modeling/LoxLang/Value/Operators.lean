import LoxLang.Program.Basic
import LoxLang.Value.Basic
import LoxLang.Value.Fault

/-!
The operators on values.  Arithmetic is for numbers, addition also joins texts,
and order is for numbers and texts in any mixture: beside a number, a text
counts as its character sum.
-/

namespace LoxLang

inductive Comparison where
  | less | lessEqual | greater | greaterEqual
deriving DecidableEq, Repr

namespace Comparison

def numbers : Comparison → Float → Float → Bool
  | .less, left, right => left < right
  | .lessEqual, left, right => left ≤ right
  | .greater, left, right => left > right
  | .greaterEqual, left, right => left ≥ right

/-- Texts are ordered by their bytes. -/
def texts : Comparison → Bytes → Bytes → Bool
  | .less, left, right => left < right
  | .lessEqual, left, right => left ≤ right
  | .greater, left, right => left > right
  | .greaterEqual, left, right => left ≥ right

def values (comparison : Comparison) : Value → Value → Except Fault Value
  | .number left, .number right => .ok (.bool (comparison.numbers left right))
  | .number left, .string right => .ok (.bool (comparison.numbers left (characterSum right)))
  | .string left, .number right => .ok (.bool (comparison.numbers (characterSum left) right))
  | .string left, .string right => .ok (.bool (comparison.texts left right))
  | _, _ => .error .operandsNotOrdered

end Comparison

namespace Value

/-- Add numbers, or join texts; a number joins a text in its written form. -/
def add : Value → Value → Except Fault Value
  | .number left, .number right => .ok (.number (left + right))
  | .number left, .string right => .ok (.string (Number.display left ++ right))
  | .string left, .number right => .ok (.string (left ++ Number.display right))
  | .string left, .string right => .ok (.string (left ++ right))
  | _, _ => .error .operandsNotAddable

def subtract : Value → Value → Except Fault Value
  | .number left, .number right => .ok (.number (left - right))
  | _, _ => .error .operandsNotNumbers

def multiply : Value → Value → Except Fault Value
  | .number left, .number right => .ok (.number (left * right))
  | _, _ => .error .operandsNotNumbers

/-- Division refuses either zero as a divisor. -/
def divide : Value → Value → Except Fault Value
  | .number left, .number right =>
      if right == 0 then .error .divisionByZero else .ok (.number (left / right))
  | _, _ => .error .operandsNotNumbers

def negate : Value → Except Fault Value
  | .number value => .ok (.number (-value))
  | _ => .error .operandNotNumber

end Value

def BinaryOp.apply : BinaryOp → Value → Value → Except Fault Value
  | .equal, left, right => .ok (.bool (left.equals right))
  | .notEqual, left, right => .ok (.bool !(left.equals right))
  | .greater, left, right => Comparison.greater.values left right
  | .greaterEqual, left, right => Comparison.greaterEqual.values left right
  | .less, left, right => Comparison.less.values left right
  | .lessEqual, left, right => Comparison.lessEqual.values left right
  | .add, left, right => left.add right
  | .subtract, left, right => left.subtract right
  | .multiply, left, right => left.multiply right
  | .divide, left, right => left.divide right

def UnaryOp.apply : UnaryOp → Value → Except Fault Value
  | .not, value => .ok (.bool !value.isTruthy)
  | .negate, value => value.negate

namespace Value

/-- The operators that can be applied by name. -/
def operation? : String → Option (Value → Value → Except Fault Value)
  | "add" => some add
  | "sub" => some subtract
  | "mul" => some multiply
  | "div" => some divide
  | "lt" => some Comparison.less.values
  | "lte" => some Comparison.lessEqual.values
  | "gt" => some Comparison.greater.values
  | "gte" => some Comparison.greaterEqual.values
  | "neg" => some fun value _ => value.negate
  | "eq" => some BinaryOp.equal.apply
  | _ => none

/-- Apply an operator by name.  No value supports an unknown one. -/
def operate (name : String) (left right : Value) : Except Fault Value :=
  match operation? name with
  | some operation => operation left right
  | none => .error .operandsNotNumbers

end Value

end LoxLang
