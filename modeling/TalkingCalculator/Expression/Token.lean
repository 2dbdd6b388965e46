import TalkingCalculator.Expression.Operation

namespace TalkingCalculator

/-- A token. A name and a call carry any text: which names are functions is decided where they are
used. -/
inductive Token where
  | number (x : Float)
  | pi
  | euler
  | name (w : String)
  | operator (op : BinaryOperator)
  | opening
  | closing
  | comma
  | negation
  | call (w : String) (count : Nat)
deriving DecidableEq

namespace Token

/-- The text of a token in the trace of a calculation. -/
def text : Token → String
  | number x => Number.text x
  | pi => "PI"
  | euler => "e"
  | name w => w
  | operator op => String.singleton op.symbol
  | opening => "("
  | closing => ")"
  | comma => ","
  | negation => "neg"
  | call w count => w ++ "/" ++ String.ofList (digits count)

/-- The texts of the tokens, separated by single spaces. -/
def textOfList (ts : List Token) : String :=
  " ".intercalate (ts.map text)

/-- How tightly an operator token binds, and zero for the other tokens. -/
def precedence : Token → Nat
  | operator op => op.precedence
  | negation => 3
  | _ => 0

/-- Whether a token is an operator on values that were read before. -/
def isOperator (t : Token) : Bool :=
  0 < t.precedence

end Token

end TalkingCalculator
