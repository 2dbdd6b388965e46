import TalkingCalculator.Proofs.PostfixAcceptance
import TalkingCalculator.Proofs.PostfixSteps

/-!
# Conversion to postfix order

The conversion accepts exactly the expressions of the grammar, and what it returns is the postfix
order of their trees.
-/

namespace TalkingCalculator

open Grammar Lexeme Conversion

/-- What the conversion accepts is an expression, in which a percentage may stand for an argument in
parentheses. -/
theorem exists_looselyDerives_of_toPostfix {ls : List Lexeme} {ts : List Token}
    (h : toPostfix (ls.flatMap Lexeme.tokens) = .ok ts) :
    ∃ t, LooselyDerives .sum ls t ∧ ts = t.postfixOrder := by
  rw [toPostfix] at h
  cases hrun : (ls.flatMap Lexeme.tokens).foldlM step .start with
  | error e => simp [hrun, bind, Except.bind] at h
  | ok c =>
      exact exists_derives_of_finish (reached_lexemes reached_start hrun)
        (by simpa [hrun, bind, Except.bind] using h)

theorem isExpression_of_looselyDerives {ls : List Lexeme} {t : Tree}
    (h : LooselyDerives .sum ls t) :
    IsExpression (ls.flatMap Lexeme.tokens) t := by
  refine h.flatMap Lexeme.tokens (fun s => rfl) fun ys a _ ha => ?_
  have hnumber (x : Float) : Derives id Token.IsOperand .factor [.number x] (.number x) :=
    .ofAtom (.operand (.number x))
  have hdiv : BinaryOperator.div ∈ [.mul, .div, .rem] := by decide
  have hquotient (x : Float) : Derives id Token.IsOperand .sum
      [.number x, .operator .div, .number 100] (.hundredth x) :=
    .ofProduct (.product hdiv (.ofFactor (hnumber x)) (hnumber 100))
  cases ha with
  | ofIsOperand ha =>
      cases ha with
      | token ha => exact .operand ha
      | percentage x => exact .parentheses (hquotient x)
  | call f x => exact .call f (hquotient x)

theorem Lexeme.flatMap_tokens_map_token (ts : List Token) :
    (ts.map Lexeme.token).flatMap Lexeme.tokens = ts := by
  simp [List.flatMap_map, Lexeme.tokens]

theorem toPostfix_eq_ok_iff (ts ordered : List Token) :
    toPostfix ts = .ok ordered ↔ ∃ t, IsExpression ts t ∧ ordered = t.postfixOrder := by
  constructor
  · intro h
    rw [← Lexeme.flatMap_tokens_map_token ts] at h ⊢
    obtain ⟨t, ht, hordered⟩ := exists_looselyDerives_of_toPostfix h
    exact ⟨t, isExpression_of_looselyDerives ht, hordered⟩
  · rintro ⟨t, ht, rfl⟩
    exact toPostfix_of_isExpression ht

end TalkingCalculator
