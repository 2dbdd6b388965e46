import TalkingCalculator.Expression.Input

namespace TalkingCalculator.Buffer

/-- The keys that type several characters, which are erased together. -/
def compositeKeys : List (List Char) :=
  ["sqrt(", "sin(", "cos(", "tan(", "pow(", "log(", "PI"].map String.toList

/-- The text without the last key and the spaces after it. -/
def dropLastKey (cs : List Char) : List Char :=
  let kept := Text.dropEndWhile (· = ' ') cs
  match compositeKeys.find? fun key => key.isSuffixOf kept with
  | some key => kept.take (kept.length - key.length)
  | none => kept.dropLast

/-- Whether the last character of a text, blanks aside, ends a number, a constant or a
parenthesis. -/
def endsWithValue (cs : List Char) : Bool :=
  let kept := Text.trimEnd cs
  ['P', 'I'].isSuffixOf kept || kept.getLast?.any fun c => Lexer.isMantissa c || c = ')' || c = 'e'

/-- The text of a number as one operand: in parentheses if it has a sign or an exponent. -/
def operand (text : String) : String :=
  if text.toList.head? = some '-' ∨ Number.isScientific text then "(" ++ text ++ ")" else text

/-- The buffer after a number is recalled into it. -/
def recalled (buffer text : String) : String :=
  if endsWithValue buffer.toList then text else buffer ++ operand text

end TalkingCalculator.Buffer
