import TalkingCalculator.Expression.Lexer
import TalkingCalculator.Proofs.Grammar
import TalkingCalculator.Proofs.Numeral

namespace TalkingCalculator

/-- `Spells cs l` says that the characters `cs` write the lexeme `l`. -/
inductive Lexeme.Spells : List Char → Lexeme → Prop
  | numeral (n : Numeral) : Spells n.text (.token (.number n.value))
  | percentage (m : Mantissa) : Spells (m.text ++ ['%']) (.percentage (Numeral.value ⟨m, none⟩))
  | pi : Spells ['P', 'I'] (.token .pi)
  | euler : Spells ['e'] (.token .euler)
  | name (w : String) (hw : (arity? w).isSome = true) : Spells w.toList (.token (.name w))
  | operator (op : BinaryOperator) : Spells [op.symbol] (.token (.operator op))
  | opening : Spells ['('] (.token .opening)
  | closing : Spells [')'] (.token .closing)
  | comma : Spells [','] (.token .comma)

/-- `Writes cs ls` says that the characters `cs` write the lexemes `ls` in order, with any blanks
around them. A remainder sign does not directly follow a digit or a point, with which it would write
a percentage. -/
inductive Writes : List Char → List Lexeme → Prop
  | nil : Writes [] []
  | blank {c cs ls} (hc : Text.isBlank c = true) (h : Writes cs ls) : Writes (c :: cs) ls
  | lexeme {w cs l ls} (hw : l.Spells w)
      (hpercent : ∀ c ∈ w.getLast?, Lexer.isMantissa c = true → cs.head? ≠ some '%')
      (h : Writes cs ls) : Writes (w ++ cs) (l :: ls)

/-- `DrawnAs cs ws` says that `cs` is the text `ws` with glyphs in place of some of its
characters. -/
inductive DrawnAs : List Char → List Char → Prop
  | nil : DrawnAs [] []
  | same (c : Char) {cs ws} (h : DrawnAs cs ws) : DrawnAs (c :: cs) (c :: ws)
  | times {cs ws} (h : DrawnAs cs ws) : DrawnAs ('×' :: cs) ('*' :: ws)
  | divided {cs ws} (h : DrawnAs cs ws) : DrawnAs ('÷' :: cs) ('/' :: ws)
  | minus {cs ws} (h : DrawnAs cs ws) : DrawnAs ('−' :: cs) ('-' :: ws)
  | pi {cs ws} (h : DrawnAs cs ws) : DrawnAs ('π' :: cs) ('P' :: 'I' :: ws)

end TalkingCalculator
