import TalkingCalculator.Number.Basic

/-!
# Rounding to twelve places

A result is rounded to twelve decimal places: it is counted in units of the twelfth place, rounded
to a whole number with a half going away from zero, and divided again, where product and quotient
are rounded to the nearest magnitude. For large magnitudes one pass can move the result to a
neighbour, so passes are repeated until the result stays.
-/

namespace TalkingCalculator.Number

/-- How many units of the twelfth place make one. -/
def placeUnits : Nat := 1_000_000_000_000

/-- One pass over a finite magnitude. It leaves a magnitude whose product overflows as it is. -/
def roundOnce (code : Nat) : Nat :=
  let scaled := Binary.double.nearest (Binary.double.units code * placeUnits) Binary.double.scale
  if scaled < Binary.double.infinity then
    Binary.double.nearest (roundHalfUp (Binary.double.units scaled) Binary.double.scale) placeUnits
  else code

/-- Repeats passes until one changes nothing, at most the given number of times. -/
def settle : Nat → Nat → Nat
  | 0, code => code
  | passes + 1, code =>
    let next := roundOnce code
    if next = code then code else settle passes next

/-- The number rounded to twelve places. A zero result loses its sign. -/
def toTwelvePlaces (x : Float) : Float :=
  if IsFinite x then
    let code := settle 8 (roundOnce (magnitude x))
    ofMagnitude (code ≠ 0 && isNegative x) code
  else x

end TalkingCalculator.Number
