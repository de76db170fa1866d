import LoxLang.Number.Decimal

/-!
The written form of a number: the fewest digits that read back, never with an
exponent, and a word for each value that is not finite.
-/

namespace LoxLang.Number

/-- The digits of a finite magnitude. -/
def magnitude (rank : Nat) : Bytes :=
  if rank = 0 then Bytes.ofString "0" else (Decimal.shortest rank).render

/-- The written form of a number.  Negative zero keeps its sign. -/
def display (value : Float) : Bytes :=
  let rank := Binary.rank value
  if Binary.infinityRank < rank then
    Bytes.ofString "NaN"
  else
    let sign := if Binary.isNegative value then Bytes.ofString "-" else []
    if rank = Binary.infinityRank then
      sign ++ Bytes.ofString "Infinity"
    else
      sign ++ magnitude rank

/-- Read a numeral as the nearest double; one beyond the greatest double is
infinite. -/
def read? (text : Bytes) : Option Float :=
  (Decimal.parse? text).map fun number => Binary.toFloat number.nearest

/-- Read a numeral, refusing one beyond the greatest double. -/
def readFinite? (text : Bytes) : Option Float := do
  let number ← Decimal.parse? text
  if number.nearest < Binary.infinityRank then
    some (Binary.toFloat number.nearest)
  else
    none

end LoxLang.Number
