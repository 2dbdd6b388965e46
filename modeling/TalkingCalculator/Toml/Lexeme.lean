namespace TalkingCalculator.Toml

/-- Reads a value at the beginning of a text and returns it with the rest, or refuses the text. -/
abbrev Reader (α : Type) := List Char → Option (α × List Char)

/-- Writes every line end as one newline. -/
def unifyLineEnds : List Char → List Char
  | '\r' :: '\n' :: cs => '\n' :: unifyLineEnds cs
  | c :: cs => c :: unifyLineEnds cs
  | [] => []

/-- Whether a character can stand in a text or a comment: a tab, or no control character. -/
def isPlain (c : Char) : Bool :=
  c = '\t' || (0x20 ≤ c.toNat && c.toNat ≠ 0x7F)

/-- Whether a character separates lexemes within a line. -/
def isGap (c : Char) : Bool :=
  c = ' ' || c = '\t'

/-- The text without the gap at its beginning. -/
def skipGap (cs : List Char) : List Char :=
  cs.dropWhile isGap

/-- The text without the comment at its beginning. -/
def skipComment : List Char → List Char
  | '#' :: cs => cs.dropWhile isPlain
  | cs => cs

/-- What follows the end of a line: a gap, a comment, and a newline or the end of the text. -/
def lineEnd? (cs : List Char) : Option (List Char) :=
  match skipComment (skipGap cs) with
  | [] => some []
  | '\n' :: rest => some rest
  | _ => none

/-- The text without the gaps, newlines and comments at its beginning. -/
def skipSpace : List Char → List Char
  | [] => []
  | c :: cs =>
    if isGap c || c = '\n' then skipSpace cs
    else if c = '#' then skipSpace (cs.dropWhile isPlain)
    else c :: cs
termination_by cs => cs.length
decreasing_by
  · simp
  · exact Nat.lt_succ_of_le (List.dropWhile_sublist _).length_le

theorem length_skipGap_le (cs : List Char) : (skipGap cs).length ≤ cs.length :=
  (List.dropWhile_sublist _).length_le

end TalkingCalculator.Toml
