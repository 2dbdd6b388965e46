import TalkingCalculator.Expression.Operation

namespace TalkingCalculator

inductive Tree where
  | number (x : Float)
  | pi
  | euler
  | negate (a : Tree)
  | apply (f : UnaryFunction) (a : Tree)
  | power (base exponent : Tree)
  | binary (op : BinaryOperator) (a b : Tree)
deriving DecidableEq

namespace Tree

/-- The number nearest to the ratio of a circle's circumference to its diameter. -/
def piValue : Float := Float.ofBits 0x400921FB54442D18

/-- The number nearest to the base of the natural logarithm. -/
def eulerValue : Float := Float.ofBits 0x4005BF0A8B145769

/-- The value of an expression, which need not be finite. -/
def eval : Tree → Float
  | number x => x
  | pi => piValue
  | euler => eulerValue
  | negate a => -a.eval
  | apply f a => f.apply a.eval
  | power a b => Float.pow a.eval b.eval
  | binary op a b => op.apply a.eval b.eval

/-- An angle in degrees, as an expression for the same angle in radians. -/
def radians (a : Tree) : Tree :=
  binary .mul (binary .div pi (number 180)) a

/-- The expression in which every angle is taken to be in degrees. -/
def inDegrees : Tree → Tree
  | number x => number x
  | pi => pi
  | euler => euler
  | negate a => negate a.inDegrees
  | apply f a => apply f (if f.takesAngle then radians a.inDegrees else a.inDegrees)
  | power a b => power a.inDegrees b.inDegrees
  | binary op a b => binary op a.inDegrees b.inDegrees

/-- The height of a tree, leaves counting one. -/
def height : Tree → Nat
  | number _ | pi | euler => 1
  | negate a | apply _ a => a.height + 1
  | power a b | binary _ a b => max a.height b.height + 1

/-- The text of an expression, with parentheses around every operation between two operands. -/
def text : Tree → String
  | number x => Number.text x
  | pi => "PI"
  | euler => "e"
  | negate a => "-" ++ a.text
  | apply f a => f.name ++ "(" ++ a.text ++ ")"
  | power a b => powerName ++ "(" ++ a.text ++ ", " ++ b.text ++ ")"
  | binary op a b => "(" ++ a.text ++ String.singleton op.symbol ++ b.text ++ ")"

end Tree

end TalkingCalculator
