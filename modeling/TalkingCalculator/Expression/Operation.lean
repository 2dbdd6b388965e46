import TalkingCalculator.Number.Basic

namespace TalkingCalculator

/-- The functions of one argument. -/
inductive UnaryFunction where
  | sin
  | cos
  | tan
  | sqrt
  | log
deriving DecidableEq, Repr

namespace UnaryFunction

def name : UnaryFunction → String
  | sin => "sin"
  | cos => "cos"
  | tan => "tan"
  | sqrt => "sqrt"
  | log => "log"

def ofName? (w : String) : Option UnaryFunction :=
  [sin, cos, tan, sqrt, log].find? fun f => f.name = w

/-- Whether the argument of a function is an angle. -/
def takesAngle : UnaryFunction → Bool
  | sin | cos | tan => true
  | sqrt | log => false

/-- The value of a function. Angles are in radians and the logarithm is the natural one. -/
def apply : UnaryFunction → Float → Float
  | sin => Float.sin
  | cos => Float.cos
  | tan => Float.tan
  | sqrt => Float.sqrt
  | log => Float.log

end UnaryFunction

/-- The name of the one function of two arguments, a base and an exponent. -/
def powerName : String := "pow"

/-- How many arguments the function with the given name takes. -/
def arity? (w : String) : Option Nat :=
  if w = powerName then some 2 else (UnaryFunction.ofName? w).map fun _ => 1

/-- The operators between two operands. -/
inductive BinaryOperator where
  | add
  | sub
  | mul
  | div
  | rem
deriving DecidableEq, Repr

namespace BinaryOperator

/-- The character that writes an operator. -/
def symbol : BinaryOperator → Char
  | add => '+'
  | sub => '-'
  | mul => '*'
  | div => '/'
  | rem => '%'

/-- The operator that a character writes. -/
def ofSymbol? (c : Char) : Option BinaryOperator :=
  [add, sub, mul, div, rem].find? fun op => op.symbol = c

/-- Of two operators the one of higher precedence binds tighter. -/
def precedence : BinaryOperator → Nat
  | add | sub => 1
  | mul | div | rem => 2

def apply : BinaryOperator → Float → Float → Float
  | add => Float.add
  | sub => Float.sub
  | mul => Float.mul
  | div => Float.div
  | rem => Number.remainder

end BinaryOperator

end TalkingCalculator
