import TalkingCalculator.Number.Basic

namespace TalkingCalculator

/-- How a text leaves the permitted grammar. -/
inductive GrammarFault where
  /-- The text holds something other than permitted characters and names. -/
  | disallowed (text : String)
  /-- No token begins with this character. -/
  | unexpected (c : Char)
deriving DecidableEq, Repr

/-- Why the evaluation of a permitted text fails. -/
inductive Failure where
  | unknownWord (w : String)
  | invalidNumber (literal : String)
  | nameWithoutParenthesis
  | missingOperator
  | missingOperatorBeforeParenthesis
  | missingArgument
  | missingOperand
  | closingWithoutOpening
  | commaOutsideCall
  | emptyParentheses
  | malformedCall
  | wrongArgumentCount (name : String) (count : Nat)
  | postfixOnlyToken
  | incompleteExpression
  | unclosedParentheses
  | unbalancedOperands
  | nestedTooDeeply
  | callWithoutArgument
  | unknownFunction (name : String) (count : Nat)
  | infixOnlyToken
  | notFinite (x : Float)
deriving DecidableEq

/-- Why an expression has no value. -/
inductive Fault where
  /-- The text is blank. -/
  | blank
  | grammar (fault : GrammarFault)
  | failure (cause : Failure)
deriving DecidableEq

/-- The greatest height of a tree, leaves counting one. -/
def maxHeight : Nat := 256

/-- The text of a number that is not finite, inside a message. -/
def notFiniteText (x : Float) : String :=
  if Number.IsUndefined x then "NaN" else if Number.isNegative x then "-inf" else "inf"

/-- What went wrong, without the kind of fault. -/
def Failure.message : Failure → String
  | unknownWord w => s!"identifiant inconnu: '{w}'"
  | invalidNumber literal => s!"nombre invalide: '{literal}'"
  | nameWithoutParenthesis => "fonction sans parenthèse"
  | missingOperator => "opérateur manquant"
  | missingOperatorBeforeParenthesis => "opérateur manquant avant '('"
  | missingArgument => "argument manquant"
  | missingOperand => "opérande manquant"
  | closingWithoutOpening => "parenthèse fermante sans ouvrante"
  | commaOutsideCall => "virgule hors d’un appel de fonction"
  | emptyParentheses => "parenthèses vides ou opérande manquant"
  | malformedCall => "appel de fonction mal formé"
  | wrongArgumentCount name count => s!"{name} : nombre d’arguments incorrect ({count})"
  | postfixOnlyToken => "jeton RPN inattendu en entrée"
  | incompleteExpression => "expression incomplète"
  | unclosedParentheses => "parenthèses non fermées"
  | unbalancedOperands => "expression invalide"
  | nestedTooDeeply => s!"expression trop imbriquée (profondeur > {maxHeight})"
  | callWithoutArgument => "fonction sans argument"
  | unknownFunction name count => s!"fonction inconnue: {name}/{count}"
  | infixOnlyToken => "jeton inattendu en RPN"
  | notFinite x => "résultat non fini (" ++ notFiniteText x ++ ")"

def GrammarFault.message : GrammarFault → String
  | disallowed text => text
  | unexpected c => s!"caractère inattendu: '{c}'"

def Fault.message : Fault → String
  | blank => "entrée vide"
  | grammar fault => "grammaire invalide: " ++ fault.message
  | failure cause => "échec d’évaluation: " ++ cause.message

end TalkingCalculator
