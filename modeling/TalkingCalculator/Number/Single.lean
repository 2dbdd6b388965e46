import TalkingCalculator.Number.Basic

namespace TalkingCalculator.Single

/-- The code of the magnitude of a 32-bit number. -/
def magnitude (x : Float32) : Nat :=
  x.toBits.toNat % Binary.single.signWeight

/-- Whether the sign of a 32-bit number is a minus. -/
def isNegative (x : Float32) : Bool :=
  Binary.single.signWeight ≤ x.toBits.toNat

/-- The 32-bit number with the given sign and magnitude. -/
def ofMagnitude (negative : Bool) (code : Nat) : Float32 :=
  Float32.ofBits (UInt32.ofNat (if negative then code + Binary.single.signWeight else code))

/-- The same number with 64 bits. -/
def widen (x : Float32) : Float :=
  if Binary.single.infinity < magnitude x then Number.undefined
  else if magnitude x = Binary.single.infinity then
    Number.ofMagnitude (isNegative x) Binary.double.infinity
  else Number.ofMagnitude (isNegative x)
    (Binary.double.nearest (Binary.single.units (magnitude x)) Binary.single.scale)

/-- The nearest 32-bit number. -/
def narrow (x : Float) : Float32 :=
  if Number.IsUndefined x then ofMagnitude false (Binary.single.infinity + 1)
  else if ¬ Number.IsFinite x then ofMagnitude (Number.isNegative x) Binary.single.infinity
  else
    ofMagnitude (Number.isNegative x)
      (Binary.single.nearest (Binary.double.units (Number.magnitude x)) Binary.double.scale)

/-- The 32-bit number nearest to a decimal. -/
def ofDecimal (negative : Bool) (d : Decimal) : Float32 :=
  ofMagnitude negative (d.nearest Binary.single)

/-- The 32-bit number nearest to a whole number. -/
def ofInt (n : Int) : Float32 :=
  ofMagnitude (n < 0) (Binary.single.nearest n.natAbs 1)

end TalkingCalculator.Single
