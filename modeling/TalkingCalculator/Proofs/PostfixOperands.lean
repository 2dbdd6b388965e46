import TalkingCalculator.Proofs.PostfixOrder

namespace TalkingCalculator

open Grammar Lexeme

namespace Lexeme

/-- Whether a lexeme leaves an operand to be awaited. -/
def awaitsOperand : Lexeme → Bool
  | token .opening | token .comma | token (.operator _) => true
  | _ => false

/-- Whether a value is complete after a lexeme. -/
def closesValue : Lexeme → Bool
  | token (.number _) | token .pi | token .euler | token .closing | percentage _ => true
  | _ => false

theorem closesValue_of_looselyDerives {level : Tier} {ls : List Lexeme} {t : Tree}
    (h : LooselyDerives level ls t) :
    ∃ before l, ls = before ++ [l] ∧ l.closesValue = true := by
  induction h with
  | operand h =>
      rcases h with @⟨_, _, h⟩ | ⟨f, x⟩
      · rcases h with @⟨t, _, h⟩ | x
        · cases h <;> exact ⟨[], _, rfl, rfl⟩
        · exact ⟨[], _, rfl, rfl⟩
      · exact ⟨[_], _, rfl, rfl⟩
  | @parentheses xs t h ih => exact ⟨_ :: xs, _, rfl, rfl⟩
  | @call xs a f h ih => exact ⟨_ :: _ :: xs, _, rfl, rfl⟩
  | @power xs ys a b ha hb iha ihb =>
      exact ⟨token (.name powerName) :: token .opening :: (xs ++ token .comma :: ys),
        token .closing, by simp, rfl⟩
  | ofAtom h ih | ofFactor h ih | ofProduct h ih => exact ih
  | minus h ih | plus h ih =>
      obtain ⟨before, l, rfl, hl⟩ := ih
      exact ⟨_ :: before, l, rfl, hl⟩
  | @product xs ys a b op hop ha hb iha ihb | @sum xs ys a b op hop ha hb iha ihb =>
      obtain ⟨before, l, rfl, hl⟩ := ihb
      exact ⟨xs ++ token (.operator op) :: before, l, by simp, hl⟩

end Lexeme

namespace Conversion

/-- The conversion with more output below its own. -/
def above (base : List Token) (c : Conversion) : Conversion :=
  { c with output := c.output ++ base }

theorem unstackToOpening_above (base output ops : List Token) :
    unstackToOpening (output ++ base) ops =
      (fun moved => (moved.1 ++ base, moved.2)) <$> unstackToOpening output ops := by
  induction ops generalizing output with
  | nil => rfl
  | cons op ops ih =>
      cases op <;> first | rfl | exact ih (_ :: output)

theorem unstackOperators_above (p : Nat) (base output ops : List Token) :
    unstackOperators p (output ++ base) ops =
      ((unstackOperators p output ops).1 ++ base, (unstackOperators p output ops).2) := by
  induction ops generalizing output with
  | nil => rfl
  | cons op ops ih =>
      rw [unstackOperators, unstackOperators]
      split
      · exact ih (op :: output)
      · rfl

theorem unstackAll_above (base output ops : List Token) :
    unstackAll (output ++ base) ops = (· ++ base) <$> unstackAll output ops := by
  induction ops generalizing output with
  | nil => rfl
  | cons op ops ih =>
      rw [unstackAll, unstackAll]
      split
      · exact ih (op :: output)
      · rfl

theorem closeCall_above (base : List Token) (c : Conversion) (call : Option Nat) :
    (c.above base).closeCall call = above base <$> c.closeCall call := by
  obtain ⟨output, ops, ps, value, name⟩ := c
  cases call with
  | none => rfl
  | some count =>
      cases ops with
      | nil => rfl
      | cons op ops =>
          cases op with
          | name w =>
              simp only [above, closeCall]
              split <;> rfl
          | _ => rfl

theorem close_above (base : List Token) (c : Conversion) :
    (c.above base).close = above base <$> c.close := by
  obtain ⟨output, ops, ps, value, name⟩ := c
  cases value with
  | false => rfl
  | true =>
      simp only [above, close, unstackToOpening_above]
      cases unstackToOpening output ops with
      | error e => rfl
      | ok moved =>
          cases ps with
          | nil => rfl
          | cons call ps =>
              exact closeCall_above base ⟨moved.1, moved.2.drop 1, ps, true, name⟩ call

theorem separate_above (base : List Token) (c : Conversion) :
    (c.above base).separate = above base <$> c.separate := by
  obtain ⟨output, ops, ps, value, name⟩ := c
  cases value with
  | false => rfl
  | true =>
      simp only [above, separate, unstackToOpening_above]
      cases unstackToOpening output ops with
      | error e => rfl
      | ok moved =>
          cases ps with
          | nil => rfl
          | cons call ps => cases call <;> rfl

theorem operate_above (base : List Token) (c : Conversion) (op : BinaryOperator) :
    (c.above base).operate op = above base <$> c.operate op := by
  obtain ⟨output, ops, ps, value, name⟩ := c
  cases value with
  | false => cases op <;> rfl
  | true =>
      simp only [above, operate, unstackOperators_above]
      rfl

theorem push_above (base : List Token) (c : Conversion) (t : Token) :
    (c.above base).push t = above base <$> c.push t := by
  obtain ⟨output, ops, ps, value, name⟩ := c
  cases value <;> rfl

/-- A step does not depend on the output that was there before. -/
theorem step_above (base : List Token) (c : Conversion) (t : Token) :
    (c.above base).step t = above base <$> c.step t := by
  unfold step
  change (if c.awaitsParenthesis = true ∧ t ≠ .opening then _ else _) = _
  split
  · rfl
  · cases t with
    | number | pi | euler => exact push_above base c _
    | operator op => exact operate_above base c op
    | comma => exact separate_above base c
    | closing => exact close_above base c
    | negation | call => rfl
    | name w | opening =>
        obtain ⟨output, ops, ps, value, name⟩ := c
        cases value <;> rfl

theorem foldlM_step_above (base : List Token) (ts : List Token) (c : Conversion) :
    ts.foldlM step (c.above base) = above base <$> ts.foldlM step c := by
  induction ts generalizing c with
  | nil => rfl
  | cons t ts ih =>
      rw [List.foldlM_cons, List.foldlM_cons, step_above]
      cases c.step t with
      | error e => rfl
      | ok c' => exact ih c'

theorem finish_above (base : List Token) (c : Conversion) :
    (c.above base).finish = (base.reverse ++ ·) <$> c.finish := by
  obtain ⟨output, ops, ps, value, name⟩ := c
  cases name with
  | true => rfl
  | false =>
      cases value with
      | false => rfl
      | true =>
          simp only [above, finish, unstackAll_above]
          cases unstackAll output ops with
          | error e => rfl
          | ok all => simp [bind, Except.bind, pure, Except.pure, Functor.map, Except.map]

theorem toPostfix_of_supplies {ts us vs : List Token} {t : Tree} {c : Conversion}
    (h : Supplies us t) (hrun : ts.foldlM step .start = .ok c) (hc : c.Ready) :
    toPostfix (ts ++ (us ++ vs)) = (c.output.reverse ++ t.postfixOrder ++ ·) <$>
      (vs.foldlM step { c with output := [], afterValue := true } >>= finish) := by
  have habove : { c with output := t.postfixOrder.reverse ++ c.output, afterValue := true } =
      above (t.postfixOrder.reverse ++ c.output) { c with output := [], afterValue := true } := rfl
  -- Once the operand is read, its output is below everything that follows, whichever operand it is.
  rw [toPostfix, foldlM_step_append hrun, foldlM_step_append (h c hc), habove, foldlM_step_above]
  cases vs.foldlM step { c with output := [], afterValue := true } with
  | error e => rfl
  | ok c' =>
      change (c'.above _).finish = _ <$> c'.finish
      rw [finish_above, List.reverse_append, List.reverse_reverse]

theorem Supplies.toPostfix_eq {ts : List Token} {t : Tree} (h : Supplies ts t) :
    toPostfix ts = .ok t.postfixOrder := by
  have hall : unstackAll (t.postfixOrder.reverse ++ []) [] = .ok (t.postfixOrder.reverse ++ []) :=
    rfl
  have hfinish :=
    finish_of_unstackAll ⟨t.postfixOrder.reverse ++ [], [], [], true, false⟩ rfl rfl hall
  rw [List.append_nil, List.reverse_reverse] at hfinish
  rw [toPostfix, h .start ⟨rfl, rfl⟩]
  simp only [start, List.append_nil]
  exact hfinish

theorem Awaiting.awaitsOperand {level : Tier} {ls : List Lexeme} {output ops : List Token}
    {ps : List (Option Nat)} (h : Awaiting level ls output ops ps) :
    ∀ l ∈ ls.getLast?, l.awaitsOperand = true := by
  induction h with
  | start => simp
  | ofSum h ih | ofProduct h ih => exact ih
  | call w h hs ih =>
      cases hs with
      | nil => simp [Lexeme.awaitsOperand]
      | snoc hs ha => simp [Lexeme.awaitsOperand, List.getLast?_cons]
  | _ => simp [Lexeme.awaitsOperand]

theorem awaitsOperand_of_ready {ls : List Lexeme} {c : Conversion}
    (hrun : (ls.flatMap Lexeme.tokens).foldlM step .start = .ok c) (hc : c.Ready) :
    ∀ l ∈ ls.getLast?, l.awaitsOperand = true := by
  cases reached_lexemes reached_start hrun with
  | ready h => exact h.awaitsOperand
  | name w h => cases hc.2
  | value h ht => cases hc.1

end Conversion

end TalkingCalculator
