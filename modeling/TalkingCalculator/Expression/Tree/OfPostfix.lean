import TalkingCalculator.Expression.Fault
import TalkingCalculator.Expression.Token
import TalkingCalculator.Expression.Tree

namespace TalkingCalculator.Tree

/-- A stack of trees with their heights, the last one first. -/
abbrev Stack := List (Tree × Nat)

/-- Puts a tree on the stack whose highest child has the given height. -/
def Stack.push (stack : Stack) (t : Tree) (childHeight : Nat) : Except Fault Stack :=
  if childHeight + 1 > maxHeight then .error (.failure .nestedTooDeeply)
  else .ok ((t, childHeight + 1) :: stack)

/-- Applies a function to the trees on top of the stack. -/
def Stack.call (stack : Stack) (w : String) (count : Nat) : Except Fault Stack :=
  if stack.length < count then .error (.failure .callWithoutArgument)
  else if count = 2 ∧ w = powerName then
    match stack with
    | (b, hb) :: (a, ha) :: rest => Stack.push rest (power a b) (max ha hb)
    | _ => .error (.failure .unbalancedOperands)
  else if count = 1 then
    match stack, UnaryFunction.ofName? w with
    | (a, ha) :: rest, some f => Stack.push rest (apply f a) ha
    | _, _ => .error (.failure (.unknownFunction w count))
  else .error (.failure (.unknownFunction w count))

/-- Reads one token. -/
def Stack.step (stack : Stack) : Token → Except Fault Stack
  | .number x => .ok ((number x, 1) :: stack)
  | .pi => .ok ((pi, 1) :: stack)
  | .euler => .ok ((euler, 1) :: stack)
  | .negation =>
    match stack with
    | (a, ha) :: rest => Stack.push rest (negate a) ha
    | _ => .error (.failure .unbalancedOperands)
  | .operator op =>
    match stack with
    | (b, hb) :: (a, ha) :: rest => Stack.push rest (binary op a b) (max ha hb)
    | _ => .error (.failure .unbalancedOperands)
  | .call w count => stack.call w count
  | .name _ | .opening | .closing | .comma => .error (.failure .infixOnlyToken)

/-- The tree that tokens in postfix order write. -/
def ofPostfix (ts : List Token) : Except Fault Tree := do
  match ← ts.foldlM Stack.step [] with
  | [(t, _)] => return t
  | _ => .error (.failure .unbalancedOperands)

end TalkingCalculator.Tree
