import TalkingCalculator.Toml.Lexeme

namespace TalkingCalculator.Toml

/-- The value of the given number of digits at the beginning of a text, and the rest. -/
def readField (width : Nat) : Reader Nat := fun cs =>
  if (cs.take width).length = width ∧ (cs.take width).all Char.isDigit then
    some ((cs.take width).foldl (fun n c => 10 * n + (c.toNat - '0'.toNat)) 0, cs.drop width)
  else none

/-- Skips one of the given characters. -/
def skipOneOf (marks : List Char) : List Char → Option (List Char)
  | [] => none
  | c :: cs => if marks.contains c then some cs else none

/-- Skips a field of two digits with a value between two bounds. -/
def skipField (least greatest : Nat) (cs : List Char) : Option (List Char) := do
  let (n, rest) ← readField 2 cs
  if least ≤ n ∧ n ≤ greatest then some rest else none

def daysIn (year month : Nat) : Nat :=
  if month = 2 then if year % 4 = 0 ∧ (year % 100 ≠ 0 ∨ year % 400 = 0) then 29 else 28
  else if [4, 6, 9, 11].contains month then 30
  else 31

def skipDate (cs : List Char) : Option (List Char) := do
  let (year, rest) ← readField 4 cs
  let rest ← skipOneOf ['-'] rest
  let (month, rest) ← readField 2 rest
  let rest ← skipOneOf ['-'] rest
  if 1 ≤ month ∧ month ≤ 12 then skipField 1 (daysIn year month) rest else none

/-- The text without the fraction of a second at its beginning. -/
def skipSecondFraction : List Char → List Char
  | '.' :: c :: cs => if c.isDigit then cs.dropWhile Char.isDigit else '.' :: c :: cs
  | cs => cs

/-- Skips a time of day. A second can be a leap second. -/
def skipTime (cs : List Char) : Option (List Char) := do
  let rest ← skipField 0 23 cs
  let rest ← skipOneOf [':'] rest
  let rest ← skipField 0 59 rest
  let rest ← skipOneOf [':'] rest
  let rest ← skipField 0 60 rest
  return skipSecondFraction rest

/-- Skips an offset from universal time. -/
def skipOffset (cs : List Char) : Option (List Char) :=
  (skipOneOf ['Z', 'z'] cs).or do
    let rest ← skipOneOf ['+', '-'] cs
    let rest ← skipField 0 23 rest
    let rest ← skipOneOf [':'] rest
    skipField 0 59 rest

/-- Skips a date and what may follow it: a time, and an offset after the time. -/
def skipDateTime (cs : List Char) : Option (List Char) := do
  let rest ← skipDate cs
  match skipOneOf ['T', 't', ' '] rest >>= skipTime with
  | some rest => return (skipOffset rest).getD rest
  | none => return rest

def skipMoment (cs : List Char) : Option (List Char) :=
  (skipDateTime cs).or (skipTime cs)

end TalkingCalculator.Toml
