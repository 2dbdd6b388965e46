import TalkingCalculator.Expression.Fault
import TalkingCalculator.Expression.Token

/-!
# Postfix order

Tokens in the order in which they are typed are put into postfix order one by one. Values go to the
output at once, operators wait on a stack until one that binds no tighter follows, and a name waits
under its parenthesis until that is closed. A second stack holds one entry for each open
parenthesis, with the number of arguments if it belongs to a call.
-/

namespace TalkingCalculator

/-- The tokens read so far, on their way to postfix order. -/
structure Conversion where
  /-- What is in order already, the last token first. -/
  output : List Token
  /-- What waits for its operands, the innermost first. -/
  operators : List Token
  /-- The open parentheses, the innermost first. -/
  parentheses : List (Option Nat)
  /-- Whether the last token closed a value. -/
  afterValue : Bool
  /-- Whether the last token was a name. -/
  awaitsParenthesis : Bool
deriving DecidableEq

namespace Conversion

def start : Conversion :=
  ⟨[], [], [], false, false⟩

/-- Moves the operators above the innermost open parenthesis to the output. -/
def unstackToOpening (output : List Token) : List Token → Except Fault (List Token × List Token)
  | [] => .error (.failure .closingWithoutOpening)
  | .opening :: ops => .ok (output, .opening :: ops)
  | op :: ops => unstackToOpening (op :: output) ops

/-- Moves the operators that bind at least as tightly as a given precedence to the output. -/
def unstackOperators (precedence : Nat) (output : List Token) : List Token → List Token × List Token
  | [] => (output, [])
  | op :: ops =>
    if op.isOperator ∧ precedence ≤ op.precedence then
      unstackOperators precedence (op :: output) ops
    else (output, op :: ops)

/-- Closes a call that was opened with the given number of arguments: its name leaves the stack. -/
def closeCall (c : Conversion) : Option Nat → Except Fault Conversion
  | none => .ok c
  | some count =>
    match c.operators with
    | .name w :: ops =>
      if arity? w = some count then
        .ok { c with output := .call w count :: c.output, operators := ops }
      else .error (.failure (.wrongArgumentCount w count))
    | _ => .error (.failure .malformedCall)

/-- Reads a closing parenthesis. -/
def close (c : Conversion) : Except Fault Conversion :=
  if ¬ c.afterValue then .error (.failure .emptyParentheses)
  else do
    let (output, operators) ← unstackToOpening c.output c.operators
    match c.parentheses with
    | [] => .error (.failure .closingWithoutOpening)
    | call :: parentheses =>
      closeCall
        { c with output := output, operators := operators.drop 1, parentheses := parentheses } call

/-- Reads a comma. -/
def separate (c : Conversion) : Except Fault Conversion :=
  if ¬ c.afterValue then .error (.failure .missingArgument)
  else do
    let (output, operators) ← unstackToOpening c.output c.operators
    match c.parentheses with
    | some count :: parentheses =>
      .ok { c with
        output := output
        operators := operators
        parentheses := some (count + 1) :: parentheses
        afterValue := false }
    | _ => .error (.failure .commaOutsideCall)

/-- Reads an operator. Where a value is awaited, a minus is a negation and a plus is nothing. -/
def operate (c : Conversion) (op : BinaryOperator) : Except Fault Conversion :=
  if c.afterValue then
    let (output, operators) := unstackOperators op.precedence c.output c.operators
    .ok { c with output := output, operators := .operator op :: operators, afterValue := false }
  else
    match op with
    | .sub => .ok { c with operators := .negation :: c.operators }
    | .add => .ok c
    | _ => .error (.failure .missingOperand)

/-- Reads a value. -/
def push (c : Conversion) (t : Token) : Except Fault Conversion :=
  if c.afterValue then .error (.failure .missingOperator)
  else .ok { c with output := t :: c.output, afterValue := true }

def step (c : Conversion) (t : Token) : Except Fault Conversion :=
  if c.awaitsParenthesis ∧ t ≠ .opening then .error (.failure .nameWithoutParenthesis)
  else
    match t with
    | .number _ | .pi | .euler => c.push t
    | .name _ =>
      if c.afterValue then .error (.failure .missingOperator)
      else .ok { c with operators := t :: c.operators, awaitsParenthesis := true }
    | .opening =>
      if c.afterValue then .error (.failure .missingOperatorBeforeParenthesis)
      else
        .ok { c with
          operators := .opening :: c.operators
          parentheses := (if c.awaitsParenthesis then some 1 else none) :: c.parentheses
          awaitsParenthesis := false }
    | .comma => c.separate
    | .closing => c.close
    | .operator op => c.operate op
    | .negation | .call _ _ => .error (.failure .postfixOnlyToken)

/-- Moves all waiting operators to the output. -/
def unstackAll (output : List Token) : List Token → Except Fault (List Token)
  | [] => .ok output
  | op :: ops =>
    if op.isOperator then unstackAll (op :: output) ops
    else .error (.failure .unclosedParentheses)

/-- The tokens in postfix order, when all are read. -/
def finish (c : Conversion) : Except Fault (List Token) :=
  if c.awaitsParenthesis then .error (.failure .nameWithoutParenthesis)
  else if ¬ c.afterValue then .error (.failure .incompleteExpression)
  else do
    let output ← unstackAll c.output c.operators
    return output.reverse

end Conversion

/-- The tokens of an expression in postfix order. -/
def toPostfix (ts : List Token) : Except Fault (List Token) := do
  let c ← ts.foldlM Conversion.step .start
  c.finish

end TalkingCalculator
