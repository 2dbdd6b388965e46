import TalkingCalculator.Expression.Input
import TalkingCalculator.Expression.Lexer
import TalkingCalculator.Expression.Postfix
import TalkingCalculator.Expression.Tree.OfPostfix
import TalkingCalculator.Number.Rounding

/-!
# Evaluation

From a text to its value: the text is prepared, cut into tokens, put into postfix order and made
into a tree. The value of the tree must be finite and is rounded to twelve places. The trace of a
calculation keeps the text of each stage.
-/

namespace TalkingCalculator

/-- The texts of the stages of a calculation. -/
structure Trace where
  prepared : String
  tokens : String
  postfixOrder : String
  tree : String
deriving DecidableEq, Repr

def Trace.empty : Trace :=
  ⟨"", "", "", ""⟩

/-- The tree of a text. -/
def parse (s : String) : Except Fault Tree := do
  let prepared ← Input.prepare s
  let tokens ← tokenize prepared
  let ordered ← toPostfix tokens
  Tree.ofPostfix ordered

/-- The rounded value of a tree, if it is finite. -/
def Tree.value (t : Tree) : Except Fault Float :=
  if Number.IsFinite t.eval then .ok (Number.toTwelvePlaces t.eval)
  else .error (.failure (.notFinite t.eval))

/-- The value of a text and the trace of its calculation. -/
def calculate (degrees : Bool) (s : String) : Except Fault (Float × Trace) := do
  let prepared ← Input.prepare s
  let tokens ← tokenize prepared
  let ordered ← toPostfix tokens
  let plain ← Tree.ofPostfix ordered
  let tree := if degrees then plain.inDegrees else plain
  let value ← tree.value
  return (value, ⟨prepared, Token.textOfList tokens, Token.textOfList ordered, tree.text⟩)

/-- The value of a text. -/
def evaluate (degrees : Bool) (s : String) : Except Fault Float :=
  Prod.fst <$> calculate degrees s

end TalkingCalculator
