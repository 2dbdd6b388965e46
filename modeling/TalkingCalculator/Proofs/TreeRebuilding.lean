import TalkingCalculator.Expression.Tree.OfPostfix
import TalkingCalculator.Proofs.PostfixStacks

namespace TalkingCalculator.Tree

theorem Stack.push_eq (stack : Stack) (t : Tree) (childHeight : Nat) :
    Stack.push stack t childHeight =
      if childHeight + 1 ≤ maxHeight then .ok ((t, childHeight + 1) :: stack)
      else .error (.failure .nestedTooDeeply) := by
  unfold Stack.push
  split
  · next h => rw [if_neg (by omega)]
  · next h => rw [if_pos (by omega)]

/-- What a stack holds after the tokens of a tree, whose height decides whether there is a fault. -/
def Stack.grown (stack : Stack) (t : Tree) : Except Fault Stack :=
  if t.height ≤ maxHeight then .ok ((t, t.height) :: stack) else .error (.failure .nestedTooDeeply)

theorem Stack.grown_bind {below stack : Stack} {a t : Tree} {f : Stack → Except Fault Stack}
    (hheight : a.height ≤ t.height) (h : f ((a, a.height) :: below) = stack.grown t) :
    (below.grown a >>= f) = stack.grown t := by
  -- A tree that is too high has the same fault as each tree above it.
  by_cases ha : a.height ≤ maxHeight
  · have hgrown : below.grown a = .ok ((a, a.height) :: below) := if_pos ha
    rw [hgrown]
    exact h
  · have hgrown : below.grown a = .error (.failure .nestedTooDeeply) := if_neg ha
    have ht : stack.grown t = .error (.failure .nestedTooDeeply) := if_neg (by omega)
    rw [hgrown, ht]
    rfl

theorem Stack.foldlM_step_postfixOrder (t : Tree) (stack : Stack) :
    t.postfixOrder.foldlM Stack.step stack = stack.grown t := by
  induction t generalizing stack with
  | number x => rfl
  | pi => rfl
  | euler => rfl
  | negate a ih =>
      rw [postfixOrder, List.foldlM_append, ih]
      refine grown_bind (by simp [height]) ?_
      simp only [List.foldlM_cons, List.foldlM_nil, bind_pure, Stack.step, Stack.push_eq]
      rfl
  | apply f a ih =>
      have hname : UnaryFunction.ofName? f.name = some f :=
        UnaryFunction.ofName?_eq_some_iff.2 rfl
      rw [postfixOrder, List.foldlM_append, ih]
      refine grown_bind (by simp [height]) ?_
      simp [Stack.step, Stack.call, hname, Stack.push_eq]
      rfl
  | power a b iha ihb =>
      rw [postfixOrder, List.append_assoc, List.foldlM_append, iha]
      refine grown_bind (by simp [height]; omega) ?_
      rw [List.foldlM_append, ihb]
      refine grown_bind (by simp [height]; omega) ?_
      simp only [List.foldlM_cons, List.foldlM_nil, bind_pure, Stack.step, Stack.call,
        Stack.push_eq]
      rfl
  | binary op a b iha ihb =>
      rw [postfixOrder, List.append_assoc, List.foldlM_append, iha]
      refine grown_bind (by simp [height]; omega) ?_
      rw [List.foldlM_append, ihb]
      refine grown_bind (by simp [height]; omega) ?_
      simp only [List.foldlM_cons, List.foldlM_nil, bind_pure, Stack.step, Stack.push_eq]
      rfl

theorem ofPostfix_postfixOrder (t : Tree) :
    ofPostfix t.postfixOrder =
      if t.height ≤ maxHeight then .ok t else .error (.failure .nestedTooDeeply) := by
  rw [ofPostfix, Stack.foldlM_step_postfixOrder, Stack.grown]
  by_cases h : t.height ≤ maxHeight
  · rw [if_pos h, if_pos h]
    rfl
  · rw [if_neg h, if_neg h]
    rfl

end TalkingCalculator.Tree
