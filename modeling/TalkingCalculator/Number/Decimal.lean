import TalkingCalculator.Number.Binary

/-!
# Decimals

A decimal is a whole coefficient times a power of ten. `Decimal.nearest` gives the binary magnitude
nearest to it, and `Decimal.shortest` the decimal of fewest digits that reads back to a binary
magnitude. The two layouts of a decimal are positional and scientific, and `Decimal.read?` reads
both.
-/

namespace TalkingCalculator

/-- The number `coefficient * 10 ^ exponent`. -/
structure Decimal where
  coefficient : Nat
  exponent : Int
deriving DecidableEq, Repr

abbrev digits (n : Nat) : List Char :=
  Nat.toDigits 10 n

/-- The natural number that a list of decimal digits writes. -/
abbrev ofDigits (cs : List Char) : Nat :=
  Nat.ofDigitChars 10 cs 0

namespace Decimal

/-- The code of the binary magnitude nearest to a decimal. An exponent that alone decides between
zero and infinity is not raised to a power. -/
def nearest (b : Binary) (d : Decimal) : Nat :=
  if d.coefficient = 0 then 0
  else if d.exponent > b.fieldCount then b.infinity
  else if d.exponent < -(b.fieldCount + d.coefficient.log2 : Int) then 0
  else b.nearest (d.coefficient * Nat.pow 10 d.exponent.toNat) (Nat.pow 10 (-d.exponent).toNat)

/-- Drops the trailing zeros of the coefficient, at most `limit` of them. -/
def dropZeros : Nat → Decimal → Decimal
  | 0, d => d
  | limit + 1, d =>
    if d.coefficient ≠ 0 ∧ d.coefficient % 10 = 0 then
      dropZeros limit ⟨d.coefficient / 10, d.exponent + 1⟩
    else d

/-- The neighbour of `num / den` on the grid of the multiples of `10 ^ grid` that reads back to a
code: the nearer one if both do, the upper one if they are equally near. -/
def onGrid? (b : Binary) (code num den : Nat) (grid : Int) : Option Decimal :=
  let n := num * Nat.pow 10 (-grid).toNat
  let d := den * Nat.pow 10 grid.toNat
  let below : Decimal := ⟨n / d, grid⟩
  let above : Decimal := ⟨n / d + 1, grid⟩
  let readsBack (x : Decimal) : Bool := x.nearest b = code
  if readsBack below && (!readsBack above || 2 * (n % d) < d) then some below
  else if readsBack above then some above
  else none

/-- The exact value of a code: a power of two in the denominator is a power of five in the
coefficient. -/
def exact (b : Binary) (code : Nat) : Decimal :=
  ⟨b.units code * Nat.pow 5 b.depth, -b.depth⟩

/-- The decimal of fewest digits that reads back to a positive finite code: the first find on ever
finer grids, and the exact value if eighteen of them have none. -/
def shortest (b : Binary) (code : Nat) : Decimal :=
  let num := b.units code
  let top : Int := (digits num).length - (digits b.scale).length
  let found := (List.range 18).findSome? fun (i : Nat) => onGrid? b code num b.scale (top - i)
  dropZeros (digits num).length (found.getD (exact b code))

/-- The exponent of the leading digit. -/
def leading (d : Decimal) : Int :=
  d.exponent + (digits d.coefficient).length - 1

/-- The digits with a point at its place, and a zero before a point that nothing precedes. -/
def positional (d : Decimal) : List Char :=
  let ds := digits d.coefficient
  let point : Int := ds.length + d.exponent
  if 0 ≤ d.exponent then ds ++ List.replicate d.exponent.toNat '0'
  else if 0 < point then ds.take point.toNat ++ '.' :: ds.drop point.toNat
  else '0' :: '.' :: (List.replicate (-point).toNat '0' ++ ds)

/-- The digits with a point after the first, and a signed exponent. -/
def scientific (d : Decimal) : List Char :=
  let mantissa :=
    match digits d.coefficient with
    | [] => []
    | [c] => [c]
    | c :: cs => c :: '.' :: cs
  let sign := if d.leading < 0 then '-' else '+'
  mantissa ++ 'e' :: sign :: digits d.leading.natAbs

/-- The sign at the beginning of a text, if there is one, and what follows it. -/
def splitSign : List Char → List Char × List Char
  | '+' :: cs => (['+'], cs)
  | '-' :: cs => (['-'], cs)
  | cs => ([], cs)

theorem splitSign_append (cs : List Char) : (splitSign cs).1 ++ (splitSign cs).2 = cs := by
  unfold splitSign
  split <;> rfl

/-- The exponent that follows a mantissa: nothing, or an exponent mark with an optional sign and
digits. -/
def readExponent? : List Char → Option Int
  | [] => some 0
  | mark :: cs =>
    let (sign, ds) := splitSign cs
    if (mark = 'e' ∨ mark = 'E') ∧ ds ≠ [] ∧ ds.all Char.isDigit then
      some (if sign = ['-'] then -(ofDigits ds : Int) else ofDigits ds)
    else none

/-- Reads an unsigned decimal: digits with at most one point, at least one digit, and an optional
exponent. -/
def read? (cs : List Char) : Option Decimal :=
  let whole := cs.takeWhile Char.isDigit
  let rest := cs.dropWhile Char.isDigit
  let (fraction, tail) : List Char × List Char :=
    match rest with
    | '.' :: rest => (rest.takeWhile Char.isDigit, rest.dropWhile Char.isDigit)
    | rest => ([], rest)
  if whole = [] ∧ fraction = [] then none
  else (readExponent? tail).map fun e => ⟨ofDigits (whole ++ fraction), e - fraction.length⟩

end Decimal

end TalkingCalculator
