import LoxLang.Token.Basic
import LoxLang.Text.Utf8

/-!
Run-time values.  Functions, classes and instances are places in a heap and
are equal exactly when they are the same place.
-/

namespace LoxLang

abbrev FrameId := Nat

abbrev ClosureId := Nat

abbrev ClassId := Nat

abbrev ObjectId := Nat

/-- The functions that every session starts with. -/
inductive Native where
  | clock | input
deriving DecidableEq, Repr

inductive Value where
  | nil
  | bool (value : Bool)
  | number (value : Float)
  | string (text : Bytes)
  | native (function : Native)
  | function (closure : ClosureId)
  | classRef (type : ClassId)
  | object (place : ObjectId)
deriving DecidableEq

def Literal.value : Literal → Value
  | .nil => .nil
  | .bool value => .bool value
  | .number value => .number value
  | .string text => .string text

/-- Add the code points of a text to a sum, from left to right.  A byte that starts no
well-formed sequence counts as its value: only such a byte is read as the replacement and
takes one byte. -/
def addCharacters (sum : Float) : Bytes → Float
  | [] => sum
  | first :: rest =>
      let read := Utf8.decodeFirst (first :: rest)
      let count := if read.1 = Utf8.replacement ∧ read.2 = 1 then first.toNat else read.1
      addCharacters (sum + Float.ofNat count) ((first :: rest).drop read.2)
termination_by text => text.length
decreasing_by
  have := Utf8.size_decodeFirst_pos first rest
  simp only [List.length_drop, List.length_cons]
  omega

/-- The number that stands for a text beside a number: the sum of its code
points. -/
def characterSum (text : Bytes) : Float :=
  addCharacters 0 text

namespace Value

/-- Only `nil` and `false` fail a condition. -/
def isTruthy : Value → Bool
  | .nil => false
  | .bool value => value
  | _ => true

/-- Equality of values.  A number and a text are compared through the text's
character sum. -/
def equals : Value → Value → Bool
  | .nil, .nil => true
  | .bool left, .bool right => left == right
  | .number left, .number right => left == right
  | .number left, .string right => left == characterSum right
  | .string left, .number right => characterSum left == right
  | .string left, .string right => left == right
  | .native left, .native right => left == right
  | .function left, .function right => left == right
  | .classRef left, .classRef right => left == right
  | .object left, .object right => left == right
  | _, _ => false

end Value

end LoxLang
