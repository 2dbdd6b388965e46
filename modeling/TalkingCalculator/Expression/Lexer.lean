import TalkingCalculator.Text.Blank
import TalkingCalculator.Expression.Fault
import TalkingCalculator.Expression.Token

/-!
# Lexical analysis

A text is cut into tokens from left to right, each as long as possible. Blank characters separate
tokens and are dropped. A number may have an exponent, and an `e` that no exponent follows is the
constant.
-/

namespace TalkingCalculator.Lexer

/-- The token that one character writes by itself. -/
def symbolToken? : Char → Option Token
  | '(' => some .opening
  | ')' => some .closing
  | ',' => some .comma
  | c => (BinaryOperator.ofSymbol? c).map .operator

/-- The token that a word of letters writes. -/
def wordToken (w : String) : Except Fault Token :=
  if w = "PI" then .ok .pi
  else if w = "e" then .ok .euler
  else if (arity? w).isSome then .ok (.name w)
  else .error (.failure (.unknownWord w))

/-- Whether a character can stand in the mantissa of a number. -/
def isMantissa (c : Char) : Bool :=
  c.isDigit || c = '.'

/-- The exponent at the beginning of a text and what follows it. Without a digit there is no
exponent. -/
def splitExponent : List Char → List Char × List Char
  | 'e' :: cs =>
    let (sign, ds) := Decimal.splitSign cs
    if ds.takeWhile Char.isDigit = [] then ([], 'e' :: cs)
    else ('e' :: sign ++ ds.takeWhile Char.isDigit, ds.dropWhile Char.isDigit)
  | cs => ([], cs)

/-- The token that the literal of a number writes. -/
def numberToken (literal : List Char) : Except Fault Token :=
  match Decimal.read? literal with
  | some d => .ok (.number (Number.ofDecimal d))
  | none => .error (.failure (.invalidNumber (String.ofList literal)))

theorem splitExponent_append (cs : List Char) :
    (splitExponent cs).1 ++ (splitExponent cs).2 = cs := by
  unfold splitExponent
  split
  · simp only []
    split
    · rfl
    · rw [List.cons_append, List.cons_append, List.append_assoc, List.takeWhile_append_dropWhile,
        Decimal.splitSign_append]
  · rfl

theorem length_splitExponent_le (cs : List Char) : (splitExponent cs).2.length ≤ cs.length := by
  have h := congrArg List.length (splitExponent_append cs)
  rw [List.length_append] at h
  omega

/-- The tokens of a text. -/
def tokens : List Char → Except Fault (List Token)
  | [] => .ok []
  | c :: cs =>
    if Text.isBlank c then tokens cs
    else
      match symbolToken? c with
      | some t => do
        let ts ← tokens cs
        return t :: ts
      | none =>
        if c.isAlpha then do
          let t ← wordToken (String.ofList (c :: cs.takeWhile Char.isAlpha))
          let ts ← tokens (cs.dropWhile Char.isAlpha)
          return t :: ts
        else if isMantissa c then do
          let rest := cs.dropWhile isMantissa
          let t ← numberToken (c :: cs.takeWhile isMantissa ++ (splitExponent rest).1)
          let ts ← tokens (splitExponent rest).2
          return t :: ts
        else .error (.grammar (.unexpected c))
termination_by cs => cs.length
decreasing_by
  · simp
  · simp
  · exact Nat.lt_succ_of_le (List.dropWhile_sublist _).length_le
  · exact Nat.lt_succ_of_le
      (Nat.le_trans (length_splitExponent_le _) (List.dropWhile_sublist _).length_le)

end TalkingCalculator.Lexer

namespace TalkingCalculator

def tokenize (s : String) : Except Fault (List Token) :=
  Lexer.tokens s.toList

end TalkingCalculator
