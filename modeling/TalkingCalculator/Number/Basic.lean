import TalkingCalculator.Number.Decimal

/-!
# Numbers

The calculator's numbers are the 64-bit binary ones. A number is seen here as a sign and the code of
a magnitude, which gives its exact value. Its text is the shortest decimal that reads back to it.
-/

namespace TalkingCalculator.Number

/-- The code of the magnitude of a number. -/
def magnitude (x : Float) : Nat :=
  x.toBits.toNat % Binary.double.signWeight

/-- Whether the sign of a number is a minus. -/
def isNegative (x : Float) : Bool :=
  Binary.double.signWeight ≤ x.toBits.toNat

/-- The number with the given sign and magnitude. -/
def ofMagnitude (negative : Bool) (code : Nat) : Float :=
  Float.ofBits (UInt64.ofNat (if negative then code + Binary.double.signWeight else code))

/-- The number zero, without a sign. -/
def zero : Float :=
  ofMagnitude false 0

/-- A number is finite when it is neither infinite nor undefined. -/
def IsFinite (x : Float) : Prop :=
  magnitude x < Binary.double.infinity

instance (x : Float) : Decidable (IsFinite x) :=
  inferInstanceAs (Decidable (_ < _))

/-- A number is undefined when its code lies above that of infinity. -/
def IsUndefined (x : Float) : Prop :=
  Binary.double.infinity < magnitude x

instance (x : Float) : Decidable (IsUndefined x) :=
  inferInstanceAs (Decidable (_ < _))

def undefined : Float :=
  ofMagnitude false (Binary.double.infinity + 1)

/-- The remainder of the division that rounds its quotient toward zero. It is exact and has the sign
of the dividend. -/
def remainder (x y : Float) : Float :=
  if ¬ IsFinite x ∨ IsUndefined y ∨ magnitude y = 0 then undefined
  else if ¬ IsFinite y then x
  else
    let rest := Binary.double.units (magnitude x) % Binary.double.units (magnitude y)
    ofMagnitude (isNegative x) (Binary.double.nearest rest Binary.double.scale)

/-- The number nearest to an unsigned decimal. -/
def ofDecimal (d : Decimal) : Float :=
  ofMagnitude false (d.nearest Binary.double)

/-- A decimal is written positionally when its leading digit stands for at least a millionth and for
less than `10 ^ 21`, otherwise scientifically. -/
def layout (d : Decimal) : List Char :=
  if -6 ≤ d.leading ∧ d.leading < 21 then d.positional else d.scientific

/-- The text of a number on the screen. Zero has no sign. -/
def text (x : Float) : String :=
  if IsUndefined x then "NaN"
  else if ¬ IsFinite x then if isNegative x then "-Infinity" else "Infinity"
  else if magnitude x = 0 then "0"
  else
    let written := layout (Decimal.shortest Binary.double (magnitude x))
    String.ofList (if isNegative x then '-' :: written else written)

/-- Whether the text of a number has an exponent. -/
def isScientific (s : String) : Bool :=
  s.toList.contains 'e'

end TalkingCalculator.Number
