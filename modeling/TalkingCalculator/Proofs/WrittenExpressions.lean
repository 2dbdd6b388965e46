import TalkingCalculator.Proofs.PostfixOrder
import TalkingCalculator.Proofs.TextTokens
import TalkingCalculator.Proofs.TreeRebuilding

namespace TalkingCalculator

open Grammar Input Lexeme

theorem looselyDerives_of_derives {level : Tier} {ls : List Lexeme} {t : Tree}
    (h : Derives Lexeme.token IsOperand level ls t) : LooselyDerives level ls t :=
  h.mono fun _ _ _ ha => .ofIsOperand ha

theorem ne_nil_of_derives {level : Tier} {ls : List Lexeme} {t : Tree}
    (h : Derives Lexeme.token IsOperand level ls t) : ls ≠ [] := by
  induction h with
  | operand h => cases h <;> simp
  | ofAtom h ih | ofFactor h ih | ofProduct h ih => exact ih
  | _ => simp

theorem parse_of_writes {s : String} {ls : List Lexeme} {t : Tree}
    (h : Writes (replaceGlyphs s.toList) ls) (ht : Lexeme.IsExpression ls t) :
    parse s = if t.height ≤ maxHeight then .ok t else .error (.failure .nestedTooDeeply) := by
  have htokens :=
    textTokens_of_writes h (isChain_of_looselyDerives (looselyDerives_of_derives ht))
      (ne_nil_of_derives ht)
  have hordered :=
    Conversion.toPostfix_of_isExpression
      (isExpression_of_looselyDerives (looselyDerives_of_derives ht))
  rw [← Tree.ofPostfix_postfixOrder, parse_eq_textTokens, htokens]
  change toPostfix _ >>= _ = _
  rw [hordered]
  rfl

theorem parse_of_writing {s : String} {cs : List Char} {ls : List Lexeme} {t : Tree}
    (hdrawn : DrawnAs s.toList cs) (hwrites : Writes cs ls) (ht : Lexeme.IsExpression ls t) :
    parse s = if t.height ≤ maxHeight then .ok t else .error (.failure .nestedTooDeeply) := by
  rw [← hdrawn.replaceGlyphs hwrites.isVisible] at hwrites
  exact parse_of_writes hwrites ht

theorem parse_of_writing_product :
    DrawnAs "−5% × sin(π)".toList "-5% * sin(PI)".toList ∧
      parse "−5% × sin(π)" = .ok (.binary .mul (.negate (.hundredth 5)) (.apply .sin .pi)) := by
  have hdrawn : DrawnAs "−5% × sin(π)".toList "-5% * sin(PI)".toList :=
    .minus (.same _ (.same _ (.same _ (.times
      (.same _ (.same _ (.same _ (.same _ (.same _ (.pi (.same _ .nil)))))))))))
  have hfive : Numeral.value ⟨⟨['5'], none, by simp, by decide⟩, none⟩ = 5 := by decide +kernel
  have hend : Writes [')'] [.token .closing] := .lexeme .closing (by simp) .nil
  have hargument : Writes ("sin".toList ++ (['('] ++ (['P', 'I'] ++ [')'])))
      [.token (.name "sin"), .token .opening, .token .pi, .token .closing] :=
    .lexeme (.name "sin" rfl) (by simp) (.lexeme .opening (by simp) (.lexeme .pi (by simp) hend))
  have hwrites : Writes
      (['-'] ++ (['5'] ++ ['%'] ++
        (' ' :: (['*'] ++ (' ' :: ("sin".toList ++ (['('] ++ (['P', 'I'] ++ [')']))))))))
      [.token (.operator .sub), .percentage 5, .token (.operator .mul), .token (.name "sin"),
        .token .opening, .token .pi, .token .closing] :=
    .lexeme (.operator .sub) (by simp)
      (.lexeme (hfive ▸ .percentage ⟨['5'], none, by simp, by decide⟩) (by simp)
      (.blank (by decide) (.lexeme (.operator .mul) (by simp) (.blank (by decide) hargument))))
  have hfactor : Derives Lexeme.token IsOperand .factor [.token (.operator .sub), .percentage 5]
      (.negate (.hundredth 5)) :=
    .minus (.ofAtom (.operand (.percentage 5)))
  have hcall : Derives Lexeme.token IsOperand .factor
      [.token (.name "sin"), .token .opening, .token .pi, .token .closing] (.apply .sin .pi) :=
    .ofAtom (.call .sin (.ofProduct (.ofFactor (.ofAtom (.operand (IsOperand.token .pi))))))
  have ht :=
    Derives.ofProduct
      (.product (show BinaryOperator.mul ∈ [.mul, .div, .rem] by decide) (.ofFactor hfactor) hcall)
  exact ⟨hdrawn, parse_of_writing hdrawn hwrites ht⟩

end TalkingCalculator
