import TalkingCalculator.Number.Basic
import TalkingCalculator.Text.Hexadecimal
import TalkingCalculator.Toml.Lexeme
import TalkingCalculator.Toml.Text

namespace TalkingCalculator.Toml

inductive Numeral where
  | integer (n : Int)
  | float (x : Float)
deriving DecidableEq

/-- The further digits of a run and the rest. An underscore counts only between digits. -/
def moreDigits (isDigit : Char → Bool) : List Char → List Char × List Char
  | [] => ([], [])
  | c :: cs =>
    if isDigit c then
      let (ds, rest) := moreDigits isDigit cs
      (c :: ds, rest)
    else
      match c, cs with
      | '_', d :: cs =>
        if isDigit d then
          let (ds, rest) := moreDigits isDigit cs
          (d :: ds, rest)
        else ([], '_' :: d :: cs)
      | c, cs => ([], c :: cs)

/-- Reads a run of at least one digit, and drops its underscores. -/
def readDigits (isDigit : Char → Bool) : Reader (List Char)
  | [] => none
  | c :: cs =>
    if isDigit c then
      let (ds, rest) := moreDigits isDigit cs
      some (c :: ds, rest)
    else none

/-- Reads a decimal run that begins with a zero only if it is that zero. -/
def readWhole : Reader (List Char)
  | '0' :: cs => some (['0'], cs)
  | cs => readDigits Char.isDigit cs

/-- An integer, if 64 bits hold it. -/
def fitting? (n : Int) : Option Numeral :=
  if Int64.minValue.toInt ≤ n ∧ n ≤ Int64.maxValue.toInt then some (.integer n) else none

/-- Reads the digits of an integer in the given base. -/
def readBased (base : Nat) : Reader Numeral := fun cs => do
  let (ds, rest) ← readDigits (fun c => (Text.hexValue? c).any (· < base)) cs
  let value := ds.foldl (fun n c => base * n + (Text.hexValue? c).getD 0) 0
  let n ← fitting? value
  return (n, rest)

/-- Reads the fraction after a whole part, if there is one. -/
def readFraction : List Char → Option (List Char × List Char)
  | '.' :: cs => readDigits Char.isDigit cs
  | cs => some ([], cs)

/-- Reads the exponent after a mantissa, if there is one. -/
def readExponent (cs : List Char) : Option (Option Int × List Char) :=
  match cs with
  | mark :: cs' =>
    if mark = 'e' ∨ mark = 'E' then do
      let (sign, ds) := Decimal.splitSign cs'
      let (ds, rest) ← readDigits Char.isDigit ds
      return (some (if sign = ['-'] then -(ofDigits ds : Int) else ofDigits ds), rest)
    else some (none, cs)
  | [] => some (none, [])

/-- The float nearest to a decimal. A positive one must be finite. -/
def floatOf? (negative : Bool) (d : Decimal) : Option Numeral :=
  let code := d.nearest Binary.double
  if code = Binary.double.infinity ∧
    !negative then none else some (.float (Number.ofMagnitude negative code))

/-- Reads the infinities and the undefined number. -/
def readSpecial (negative : Bool) : Reader Numeral
  | 'i' :: 'n' :: 'f' :: rest =>
    some (.float (Number.ofMagnitude negative Binary.double.infinity), rest)
  | 'n' :: 'a' :: 'n' :: rest =>
    some (.float (Number.ofMagnitude negative (Binary.double.infinity + 1)), rest)
  | _ => none

/-- Reads a decimal number after its sign. -/
def readDecimal (negative : Bool) : Reader Numeral := fun cs => do
  let (whole, rest) ← readWhole cs
  let (fraction, rest) ← readFraction rest
  let (exponent, rest) ← readExponent rest
  let value ←
    if fraction = [] ∧ exponent = none then
      fitting? (if negative then -(ofDigits whole : Int) else ofDigits whole)
    else floatOf? negative ⟨ofDigits (whole ++ fraction), exponent.getD 0 - fraction.length⟩
  return (value, rest)

/-- Reads a number. A mark of a base stands without a sign. -/
def readNumeral : Reader Numeral
  | '0' :: 'x' :: cs => readBased 16 cs
  | '0' :: 'o' :: cs => readBased 8 cs
  | '0' :: 'b' :: cs => readBased 2 cs
  | cs =>
    let (sign, cs) := Decimal.splitSign cs
    let negative := sign = ['-']
    (readSpecial negative cs).or (readDecimal negative cs)

/-- The text of a float: positional, with the fewest digits that read back, and with a fraction in
any case. -/
def writeFloat (x : Float) : List Char :=
  let sign := if Number.isNegative x then ['-'] else []
  if Number.IsUndefined x then ['n', 'a', 'n']
  else if ¬ Number.IsFinite x then sign ++ ['i', 'n', 'f']
  else
    let ds :=
      if Number.magnitude x = 0 then
        ['0'] else (Decimal.shortest Binary.double (Number.magnitude x)).positional
    sign ++ ds ++ (if ds.contains '.' then [] else ['.', '0'])

end TalkingCalculator.Toml
