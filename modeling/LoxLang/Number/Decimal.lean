import LoxLang.Number.Binary
import LoxLang.Text.Bytes

/-!
Decimal notation without exponents.  A numeral is digits with at most one
point.  `parse?` reads one, `nearest` rounds it to a double, and `shortest`
chooses the fewest digits that read back to a given double, of those the
nearest, of two equally near the even one.
-/

namespace LoxLang

/-- The value `digits / 10 ^ places`, scaled up by `10 ^ zeros`. -/
structure Decimal where
  digits : Nat
  zeros : Nat
  places : Nat
deriving DecidableEq, Repr

namespace Decimal

def ratio (number : Decimal) : Nat × Nat :=
  (number.digits * Nat.pow 10 number.zeros, Nat.pow 10 number.places)

def nearest (number : Decimal) : Nat :=
  Binary.nearest number.ratio.1 number.ratio.2

/-- The natural number that a run of digits denotes, after `high`. -/
def digitsValue (text : Bytes) (high : Nat) : Nat :=
  text.foldl (fun value byte => 10 * value + (byte.toNat - 48)) high

/-- Read a numeral: digits, with at most one point among or beside them. -/
def parse? (text : Bytes) : Option Decimal :=
  let whole := text.takeWhile Bytes.isDigit
  match text.dropWhile Bytes.isDigit with
  | [] => if whole.isEmpty then none else some ⟨digitsValue whole 0, 0, 0⟩
  | point :: fraction =>
      if point == 46 && fraction.all Bytes.isDigit && !(whole.isEmpty && fraction.isEmpty) then
        some ⟨digitsValue fraction (digitsValue whole 0), 0, fraction.length⟩
      else
        none

/-- The numeral with one digit left of the point at least and no superfluous
zero right of it. -/
def render (number : Decimal) : Bytes :=
  let value := number.digits * Nat.pow 10 number.zeros
  let whole := Bytes.ofNat (value / Nat.pow 10 number.places)
  let low := Bytes.ofNat (value % Nat.pow 10 number.places)
  let padded := List.replicate (number.places - low.length) 48 ++ low
  let fraction := if number.places = 0 then [] else Bytes.trimEndWhile (· == 48) padded
  if fraction.isEmpty then whole else whole ++ 46 :: fraction

/-- The decimal with step `10 ^ exponent`. -/
def onGrid (digits : Nat) (exponent : Int) : Decimal :=
  ⟨digits, exponent.toNat, (-exponent).toNat⟩

/-- The nearest of a double's two neighbours on the grid of step
`10 ^ exponent` that read back to it. -/
def onGrid? (rank : Nat) (exponent : Int) : Option Decimal :=
  let (numerator, denominator) := Binary.ratio rank
  let above := numerator * Nat.pow 10 (-exponent).toNat
  let below := denominator * Nat.pow 10 exponent.toNat
  let floor := above / below
  let excess := 2 * (above % below)
  let lower := onGrid floor exponent
  let upper := onGrid (floor + 1) exponent
  let lowerFirst := excess < below || (excess == below && floor % 2 == 0)
  let candidates := if lowerFirst then [lower, upper] else [upper, lower]
  candidates.find? fun candidate => candidate.nearest == rank

/-- An exponent of ten that is not below the leading digit's and exceeds it
by one at most. -/
def leadingExponent (rank : Nat) : Int :=
  let (numerator, denominator) := Binary.ratio rank
  ((numerator.log2 : Int) - denominator.log2 + 1) * 30103 / 100000

/-- The whole decimal expansion of a double. -/
def exact (rank : Nat) : Decimal :=
  let scale := Binary.scale rank
  if 1074 ≤ scale then
    ⟨Binary.significand rank * Nat.pow 2 (scale - 1074), 0, 0⟩
  else
    ⟨Binary.significand rank * Nat.pow 5 (1074 - scale), 0, 1074 - scale⟩

/-- The fewest digits that read back to the double of a rank.  Twenty grids
are tried from the coarsest, and the whole expansion stands behind them. -/
def shortest (rank : Nat) : Decimal :=
  let top := leadingExponent rank
  let found := (List.range 20).findSome? fun (place : Nat) => onGrid? rank (top - place)
  found.getD (exact rank)

end Decimal

end LoxLang
