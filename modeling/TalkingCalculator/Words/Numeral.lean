import TalkingCalculator.Words.Lexicon

/-!
# Numerals

The words of natural numbers. A number is cut into groups of three digits, each named by its scale,
from billions down to the rest below a thousand, and the count of trillions before them is named as
a number of its own. Groups of zero are not said, and the conjunction stands between any two parts
that are.
-/

namespace TalkingCalculator.Lexicon

variable (lexicon : Lexicon)

/-- The parts of a number below a hundred, none for zero. -/
def partsBelowHundred (n : Nat) : List String :=
  if 10 ≤ n ∧ n < 20 then [lexicon.teens[n % 10]]
  else
    (if n / 10 = 0 then [] else [lexicon.tens[n / 10 % 10]]) ++
      (if n % 10 = 0 then [] else [lexicon.units[n % 10]])

/-- The parts of a number below a thousand, none for zero. -/
def partsBelowThousand (n : Nat) : List String :=
  (if n / 100 = 0 then [] else [lexicon.hundreds[n / 100 % 10]]) ++
    lexicon.partsBelowHundred (n % 100)

/-- The words of a positive number below a thousand. -/
def group (n : Nat) : List String :=
  (lexicon.partsBelowThousand n).intersperse lexicon.conjunction

/-- A group below a thousand with the words that name its scale, if there is anything to say. -/
def scaledGroup (n : Nat) (scale : List String) : List (List String) :=
  if n = 0 then [] else [lexicon.group n ++ scale]

/-- The groups of a number below a trillion. -/
def groups (n : Nat) : List (List String) :=
  lexicon.scaledGroup (n / 1_000_000_000 % 1000) [lexicon.billion] ++
    lexicon.scaledGroup (n / 1_000_000 % 1000) [lexicon.million] ++
    lexicon.scaledGroup (n / 1_000 % 1000) [lexicon.thousand] ++
    lexicon.scaledGroup (n % 1000) []

def positiveWords (n : Nat) : List String :=
  if n < 1_000_000_000_000 then [lexicon.conjunction].intercalate (lexicon.groups n)
  else
    [lexicon.conjunction].intercalate
      ((positiveWords (n / 1_000_000_000_000) ++ [lexicon.trillion]) ::
        lexicon.groups (n % 1_000_000_000_000))
termination_by n
decreasing_by exact Nat.div_lt_self (by omega) (by omega)

def wholeWords (n : Nat) : List String :=
  if n = 0 then [lexicon.zero] else lexicon.positiveWords n

/-- The words of a natural number, as a text. -/
def whole (n : Nat) : String :=
  " ".intercalate (lexicon.wholeWords n)

end TalkingCalculator.Lexicon
