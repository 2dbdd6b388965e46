import TalkingCalculator.Expression.Postfix
import TalkingCalculator.Proofs.Grammar

namespace TalkingCalculator

open Grammar

theorem UnaryFunction.ofName?_eq_some_iff {w : String} {f : UnaryFunction} :
    UnaryFunction.ofName? w = some f ↔ w = f.name := by
  constructor
  · intro h
    have hf := List.find?_some h
    exact (of_decide_eq_true hf).symm
  · rintro rfl
    cases f <;> decide

theorem arity?_eq_some_iff {w : String} {count : Nat} :
    arity? w = some count ↔ (w = powerName ∧ count = 2) ∨
      ∃ f : UnaryFunction, w = f.name ∧ count = 1 := by
  unfold arity?
  split
  · next hw =>
      have hne : ∀ f : UnaryFunction, powerName ≠ f.name := by
        intro f
        cases f <;> decide
      subst hw
      simp [hne, eq_comm]
  · next hw =>
      simp only [Option.map_eq_some_iff, UnaryFunction.ofName?_eq_some_iff, hw, false_and, false_or]
      simp only [eq_comm]

/-- How tightly the operators bind at least that wait when a phrase of a level is read. -/
def Grammar.Tier.rank : Tier → Nat
  | .sum => 1
  | .product => 2
  | .factor | .atom => 3

/-- Whether the stack is such that a phrase of a level keeps apart from what waits there. -/
def Grammar.Tier.Admits (level : Tier) (operators : List Token) : Prop :=
  level.rank < 3 → ∀ x ∈ operators.head?, x.precedence < level.rank

namespace Conversion

theorem unstackOperators_append {p : Nat} {output popped ops : List Token}
    (hp : 1 ≤ p) (h : ∀ x ∈ popped, p ≤ x.precedence) :
    unstackOperators p output (popped ++ ops) =
      unstackOperators p (popped.reverse ++ output) ops := by
  induction popped generalizing output with
  | nil => rfl
  | cons x popped ih =>
      have hx : p ≤ x.precedence := h x (by simp)
      have hop : x.isOperator = true := by
        simp only [Token.isOperator, decide_eq_true_eq]
        omega
      rw [List.cons_append, unstackOperators, if_pos ⟨hop, hx⟩,
        ih fun y hy => h y (by simp [hy])]
      simp

theorem unstackOperators_of_lt {p : Nat} {output ops : List Token}
    (h : ∀ x ∈ ops.head?, x.precedence < p) : unstackOperators p output ops = (output, ops) := by
  cases ops with
  | nil => rfl
  | cons x ops =>
      have hx : x.precedence < p := h x (by simp)
      rw [unstackOperators, if_neg (by omega)]

theorem unstackToOpening_append {output popped ops : List Token}
    (h : ∀ x ∈ popped, 1 ≤ x.precedence) :
    unstackToOpening output (popped ++ ops) = unstackToOpening (popped.reverse ++ output) ops := by
  induction popped generalizing output with
  | nil => rfl
  | cons x popped ih =>
      have hx : 1 ≤ x.precedence := h x (by simp)
      rw [List.cons_append, unstackToOpening, ih fun y hy => h y (by simp [hy])]
      · simp
      · rintro rfl
        simp [Token.precedence] at hx

theorem unstackAll_append {output popped ops : List Token}
    (h : ∀ x ∈ popped, 1 ≤ x.precedence) :
    unstackAll output (popped ++ ops) = unstackAll (popped.reverse ++ output) ops := by
  induction popped generalizing output with
  | nil => rfl
  | cons x popped ih =>
      have hop : x.isOperator = true := by
        simp only [Token.isOperator, decide_eq_true_eq]
        exact h x (by simp)
      rw [List.cons_append, unstackAll, if_pos hop, ih fun y hy => h y (by simp [hy])]
      simp

theorem foldlM_step_cons {c c' : Conversion} {t : Token} (h : c.step t = .ok c') (ts : List Token) :
    (t :: ts).foldlM step c = ts.foldlM step c' := by
  rw [List.foldlM_cons, h]
  rfl

theorem foldlM_step_append {c c' : Conversion} {ts : List Token} (h : ts.foldlM step c = .ok c')
    (us : List Token) : (ts ++ us).foldlM step c = us.foldlM step c' := by
  rw [List.foldlM_append, h]
  rfl

end Conversion

end TalkingCalculator
