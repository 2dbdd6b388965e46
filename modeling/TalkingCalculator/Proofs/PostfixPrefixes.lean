import TalkingCalculator.Proofs.PostfixStacks

namespace TalkingCalculator.Conversion

open Grammar Lexeme

/-- The arguments of a call that are complete, each with the comma after it, and their trees, the
last one first. -/
inductive Arguments : List Lexeme → List Tree → Prop
  | nil : Arguments [] []
  | snoc {ls ms as a} (hs : Arguments ls as) (h : LooselyDerives .sum ms a) :
      Arguments (ls ++ ms ++ [.token .comma]) (a :: as)

theorem Arguments.call {ls ms : List Lexeme} {as : List Tree} {a : Tree} {w : String}
    (hs : Arguments ls as) (ha : LooselyDerives .sum ms a)
    (harity : arity? w = some (as.length + 1)) :
    ∃ t, LooselyDerives .atom
        (.token (.name w) :: .token .opening :: (ls ++ ms ++ [.token .closing])) t ∧
      t.postfixOrder = as.reverse.flatMap Tree.postfixOrder ++ a.postfixOrder ++
        [.call w (as.length + 1)] := by
  rcases arity?_eq_some_iff.1 harity with ⟨rfl, hcount⟩ | ⟨f, rfl, hcount⟩
  · cases hs with
    | nil => simp at hcount
    | @snoc ls us as b hs hb =>
        obtain rfl : as = [] := List.eq_nil_of_length_eq_zero (by simpa using hcount)
        cases hs with
        | nil => exact ⟨.power b a, by simpa using Derives.power hb ha, by simp [Tree.postfixOrder]⟩
  · obtain rfl : as = [] := List.eq_nil_of_length_eq_zero (by omega)
    cases hs with
    | nil => exact ⟨.apply f a, by simpa using Derives.call f ha, by simp [Tree.postfixOrder]⟩

/-- `Awaiting level ls output operators parentheses` says that after the lexemes `ls` a phrase of
the given level may begin, and that the conversion has the given output and stacks there. -/
inductive Awaiting : Tier → List Lexeme → List Token → List Token → List (Option Nat) → Prop
  | start : Awaiting .sum [] [] [] []
  | parentheses {ls output ops ps} (h : Awaiting .factor ls output ops ps) :
      Awaiting .sum (ls ++ [.token .opening]) output (.opening :: ops) (none :: ps)
  | call {ls ms output ops ps as} (w : String) (h : Awaiting .factor ls output ops ps)
      (hs : Arguments ms as) :
      Awaiting .sum (ls ++ .token (.name w) :: .token .opening :: ms)
        ((as.reverse.flatMap Tree.postfixOrder).reverse ++ output) (.opening :: .name w :: ops)
        (some (as.length + 1) :: ps)
  | ofSum {ls output ops ps} (h : Awaiting .sum ls output ops ps) :
      Awaiting .product ls output ops ps
  | sum {ls ms output ops ps a op} (hop : op ∈ [.add, .sub]) (h : Awaiting .sum ls output ops ps)
      (ha : LooselyDerives .sum ms a) :
      Awaiting .product (ls ++ ms ++ [.token (.operator op)]) (a.postfixOrder.reverse ++ output)
        (.operator op :: ops) ps
  | ofProduct {ls output ops ps} (h : Awaiting .product ls output ops ps) :
      Awaiting .factor ls output ops ps
  | product {ls ms output ops ps a op} (hop : op ∈ [.mul, .div, .rem])
      (h : Awaiting .product ls output ops ps) (ha : LooselyDerives .product ms a) :
      Awaiting .factor (ls ++ ms ++ [.token (.operator op)]) (a.postfixOrder.reverse ++ output)
        (.operator op :: ops) ps
  | minus {ls output ops ps} (h : Awaiting .factor ls output ops ps) :
      Awaiting .factor (ls ++ [.token (.operator .sub)]) output (.negation :: ops) ps
  | plus {ls output ops ps} (h : Awaiting .factor ls output ops ps) :
      Awaiting .factor (ls ++ [.token (.operator .add)]) output ops ps

theorem Awaiting.precedence_lt_of_sum {ls : List Lexeme} {output ops : List Token}
    {ps : List (Option Nat)} (h : Awaiting .sum ls output ops ps) :
    ∀ x ∈ ops.head?, x.precedence < 1 := by
  cases h <;> simp [Token.precedence]

theorem Awaiting.precedence_lt_of_product {ls : List Lexeme} {output ops : List Token}
    {ps : List (Option Nat)} (h : Awaiting .product ls output ops ps) :
    ∀ x ∈ ops.head?, x.precedence < 2 := by
  cases h with
  | ofSum h => exact fun x hx => Nat.lt_succ_of_lt (h.precedence_lt_of_sum x hx)
  | @sum ls ms output ops ps a op hop h ha =>
      revert hop
      cases op <;> simp [Token.precedence, BinaryOperator.precedence]

/-- `Closes level ls output operators parentheses` says that `ls` ends in a phrase of the given
level where one may stand, once the waiting operators that bind at least as tightly are moved to the
output. -/
def Closes (level : Tier) (ls : List Lexeme) (output operators : List Token)
    (ps : List (Option Nat)) : Prop :=
  ∃ before phrase t rest waiting ops, ls = before ++ phrase ∧ operators = waiting ++ ops ∧
    (∀ x ∈ waiting, level.rank ≤ x.precedence) ∧
    waiting.reverse ++ output = t.postfixOrder.reverse ++ rest ∧
    Awaiting level before rest ops ps ∧ LooselyDerives level phrase t

theorem closes_product {ls ms : List Lexeme} {t : Tree} {output ops : List Token}
    {ps : List (Option Nat)} (h : Awaiting .factor ls output ops ps)
    (ht : LooselyDerives .factor ms t) :
    Closes .product (ls ++ ms) (t.postfixOrder.reverse ++ output) ops ps := by
  generalize hlevel : Tier.factor = level at h
  induction h generalizing ms t with
  | start | parentheses | call | ofSum | sum => cases hlevel
  | ofProduct h =>
      exact ⟨_, _, t, _, [], _, rfl, rfl, by simp, rfl, h, .ofFactor ht⟩
  | @product ls us output ops ps a op hop h ha =>
      have hrank : Tier.product.rank ≤ op.precedence := by
        revert hop
        cases op <;> decide
      refine ⟨ls, us ++ .token (.operator op) :: ms, .binary op a t, output, [.operator op], ops,
        by simp, rfl, ?_, by simp [Tree.postfixOrder], h, .product hop ha ht⟩
      simpa [Token.precedence] using hrank
  | @minus ls output ops ps h ih =>
      obtain ⟨before, phrase, t', rest, waiting, ops', hls, rfl, hwaiting, houtput, hbefore,
          hphrase⟩ :=
        ih (.minus ht) rfl
      refine ⟨before, phrase, t', rest, .negation :: waiting, ops', ?_, rfl, ?_, ?_, hbefore,
        hphrase⟩
      · simpa using hls
      · simpa [Tier.rank, Token.precedence] using hwaiting
      · simpa [Tree.postfixOrder] using houtput
  | @plus ls output ops ps h ih =>
      obtain ⟨before, phrase, t', rest, waiting, ops', hls, hcloses⟩ := ih (.plus ht) rfl
      exact ⟨before, phrase, t', rest, waiting, ops', by simpa using hls, hcloses⟩

theorem Closes.sum {ls : List Lexeme} {output ops : List Token} {ps : List (Option Nat)}
    (h : Closes .product ls output ops ps) : Closes .sum ls output ops ps := by
  obtain ⟨before, phrase, t, rest, waiting, ops, hls, rfl, hwaiting, houtput, hbefore, ht⟩ := h
  have hloose : ∀ x ∈ waiting, Tier.sum.rank ≤ x.precedence :=
    fun x hx => Nat.le_trans (by decide) (hwaiting x hx)
  cases hbefore with
  | ofSum hbefore =>
      exact ⟨before, phrase, t, rest, waiting, ops, hls, rfl, hloose, houtput, hbefore,
        .ofProduct ht⟩
  | @sum before ms rest ops ps a op hop hbefore ha =>
      have hrank : Tier.sum.rank ≤ op.precedence := by
        revert hop
        cases op <;> decide
      refine ⟨before, ms ++ .token (.operator op) :: phrase, .binary op a t, rest,
        waiting ++ [.operator op], ops, by simp [hls], by simp, ?_, ?_, hbefore, .sum hop ha ht⟩
      · intro x hx
        rcases List.mem_append.1 hx with hx | hx
        · exact hloose x hx
        · obtain rfl := List.mem_singleton.1 hx
          exact hrank
      · simp [Tree.postfixOrder, houtput]

end TalkingCalculator.Conversion
