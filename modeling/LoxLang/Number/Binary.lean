/-!
Binary64 numbers by rank.  The non-negative doubles below infinity, in
increasing order, are the bit patterns `0, 1, 2, …`, and the pattern of rank
`r` stands for `significand r * 2 ^ scale r / 2 ^ 1074`.  Rounding a ratio to
the nearest double is then arithmetic on naturals.
-/

namespace LoxLang.Binary

def infinityRank : Nat := 0x7FF * Nat.pow 2 52

/-- The binary exponent of a rank, counted from the least positive double. -/
def scale (rank : Nat) : Nat :=
  rank / Nat.pow 2 52 - 1

/-- The integer significand of a rank. -/
def significand (rank : Nat) : Nat :=
  rank - scale rank * Nat.pow 2 52

/-- The value of a rank as a ratio. -/
def ratio (rank : Nat) : Nat × Nat :=
  if 1074 ≤ scale rank then
    (significand rank * Nat.pow 2 (scale rank - 1074), 1)
  else
    (significand rank, Nat.pow 2 (1074 - scale rank))

/-- A quotient rounded to the nearest natural; a tie goes to the even one. -/
def roundDiv (numerator denominator : Nat) : Nat :=
  let quotient := numerator / denominator
  let excess := 2 * (numerator % denominator)
  if denominator < excess || (excess == denominator && quotient % 2 == 1) then
    quotient + 1
  else
    quotient

/-- The binary exponent, counted from the least positive double, at which the
ratio has a significand of 53 bits; zero below the normal range. -/
def scaleOfRatio (numerator denominator : Nat) : Nat :=
  (numerator * Nat.pow 2 1074 / denominator).log2 - 52

/-- The rank of the double nearest to a ratio; a tie goes to the even rank,
and a ratio beyond the greatest double goes to infinity. -/
def nearest (numerator denominator : Nat) : Nat :=
  let exponent := scaleOfRatio numerator denominator
  let rounded := roundDiv (numerator * Nat.pow 2 1074) (denominator * Nat.pow 2 exponent)
  min (exponent * Nat.pow 2 52 + rounded) infinityRank

def toFloat (rank : Nat) : Float :=
  Float.ofBits rank.toUInt64

/-- The rank of a double's magnitude. -/
def rank (value : Float) : Nat :=
  value.toBits.toNat % Nat.pow 2 63

def isNegative (value : Float) : Bool :=
  Nat.pow 2 63 ≤ value.toBits.toNat

end LoxLang.Binary
