import TalkingCalculator.Expression.Input
import TalkingCalculator.Words.Numeral

namespace TalkingCalculator

/-- The text that a key types, without the parenthesis that a function key types after its name. -/
def withoutOpening (cs : List Char) : List Char :=
  if cs.getLast? = some '(' ∧ cs.dropLast ≠ [] then cs.dropLast else cs

/-- The name under which a key is looked up. -/
def keyOf (symbol : String) : String :=
  String.ofList (withoutOpening (Input.replaceGlyphs symbol.toList))

namespace Lexicon

variable (lexicon : Lexicon)

/-- What is said of a key. -/
def readKey (symbol : String) : String :=
  (lexicon.keyName? (keyOf symbol)).getD symbol

/-- What is said when a key is pressed. -/
def readPressedKey (symbol : String) : String :=
  (lexicon.pressedKeyName? (keyOf symbol)).getD symbol

/-- The words of a run of digits that has at most 128 bits. An empty run is the whole part of a
number that begins with its point. -/
def readWhole? (cs : List Char) : Option String :=
  if cs = [] then some lexicon.zero
  else if cs.all Char.isDigit ∧ (ofDigits cs).log2 < 128 then some (lexicon.whole (ofDigits cs))
  else none

/-- The words of an unsigned number without exponent: its whole part, and the digits after a point
one by one. -/
def readUnsigned? (cs : List Char) : Option String :=
  match cs.dropWhile (· ≠ '.') with
  | [] => lexicon.readWhole? cs
  | _ :: fraction =>
    if fraction.all Char.isDigit then
      (lexicon.readWhole? (cs.takeWhile (· ≠ '.'))).map fun whole =>
        " ".intercalate (whole :: lexicon.point :: fraction.map fun c =>
          lexicon.readKey (String.singleton c))
    else none

/-- What is said of a text. -/
def readChars (cs : List Char) : String :=
  match _h : Text.trim cs with
  | [] => ""
  | c :: rest =>
    let text := String.ofList (c :: rest)
    match lexicon.keyName? text with
    | some name => name
    | none =>
      if text = "NaN" then lexicon.undefined
      else if text = "Infinity" then lexicon.infinity
      else if Number.isScientific text then text
      else if c = '-' then lexicon.negative ++ " " ++ readChars rest
      else (lexicon.readUnsigned? (c :: rest)).getD text
termination_by cs.length
decreasing_by
  have := Text.length_trim_le cs
  rw [_h, List.length_cons] at this
  omega

/-- What is said of a text on the screen. -/
def read (s : String) : String :=
  lexicon.readChars s.toList

/-- What is said of a number. -/
def readNumber (x : Float) : String :=
  if Number.IsUndefined x then lexicon.undefined
  else if ¬ Number.IsFinite x then
    if Number.isNegative x then lexicon.negative ++ " " ++ lexicon.infinity else lexicon.infinity
  else lexicon.read (Number.text x)

end Lexicon

end TalkingCalculator
