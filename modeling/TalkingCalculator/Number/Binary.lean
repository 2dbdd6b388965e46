/-!
# Binary floating-point magnitudes

A binary format numbers its magnitudes in ascending order: 0, the least positive one, and so on up
to infinity. The place of a magnitude in this order is its code, which is also its bit pattern
without the sign. `Binary.units` gives the exact value of a code, counted in least positive
magnitudes, and `Binary.nearest` gives the code nearest to an exact quotient.
-/

namespace TalkingCalculator

/-- A binary format, by the widths of its fraction and exponent fields. -/
structure Binary where
  fractionBits : Nat
  exponentBits : Nat
deriving DecidableEq, Repr

/-- The quotient rounded to a natural number, a half going to the even neighbour. -/
def roundHalfEven (num den : Nat) : Nat :=
  let q := num / den
  match compare (2 * (num % den)) den with
  | .lt => q
  | .eq => q + q % 2
  | .gt => q + 1

/-- The quotient rounded to a natural number, a half going up. -/
def roundHalfUp (num den : Nat) : Nat :=
  (2 * num + den) / (2 * den)

namespace Binary

/-- The format with 32 bits. -/
def single : Binary := ⟨23, 8⟩

/-- The format with 64 bits. -/
def double : Binary := ⟨52, 11⟩

/-- How many codes share an exponent field. -/
def fractionCount (b : Binary) : Nat :=
  Nat.pow 2 b.fractionBits

/-- How many exponent fields there are. -/
def fieldCount (b : Binary) : Nat :=
  Nat.pow 2 b.exponentBits

/-- The least positive magnitude is 2 to the power of minus the depth. -/
def depth (b : Binary) : Nat :=
  b.fieldCount / 2 - 2 + b.fractionBits

/-- The code of infinity. The codes below it are those of the finite magnitudes. -/
def infinity (b : Binary) : Nat :=
  (b.fieldCount - 1) * b.fractionCount

/-- The weight of the sign in a bit pattern, in which the code of the magnitude lies below the
sign. -/
def signWeight (b : Binary) : Nat :=
  b.fieldCount * b.fractionCount

/-- The value of a code in least positive magnitudes. The codes of the first two exponent fields
have the same spacing, and from there it doubles with each field. -/
def units (b : Binary) (code : Nat) : Nat :=
  let field := code / b.fractionCount
  if field = 0 then code
  else (b.fractionCount + code % b.fractionCount) * Nat.pow 2 (field - 1)

/-- The denominator of the exact value of a code, whose numerator is `units`. -/
def scale (b : Binary) : Nat :=
  Nat.pow 2 b.depth

/-- The code nearest to a quotient, of two equally near ones the even one. A quotient that is too
large has the code of infinity. -/
def nearest (b : Binary) (num den : Nat) : Nat :=
  let units := num * b.scale
  let shift := (units / den).log2 - b.fractionBits
  min b.infinity (roundHalfEven units (den * Nat.pow 2 shift) + shift * b.fractionCount)

end Binary

end TalkingCalculator
