import TalkingCalculator.Proofs.ConversionFaults
import TalkingCalculator.Proofs.PostfixOperands
import TalkingCalculator.Proofs.TextTokens
import TalkingCalculator.Proofs.TreeRebuilding

namespace TalkingCalculator

open Conversion

namespace Tree

/-- `t.SameValue t'` says that two trees have the same value in both units of angles, and that the
second is at most one level higher. -/
structure SameValue (t t' : Tree) : Prop where
  eval : t'.eval = t.eval
  inDegrees : t'.inDegrees.eval = t.inDegrees.eval
  height_le : t.height ≤ t'.height
  le_height : t'.height ≤ t.height + 1

namespace SameValue

variable {a a' b b' : Tree}

theorem refl (t : Tree) : t.SameValue t :=
  ⟨rfl, rfl, Nat.le_refl _, Nat.le_succ _⟩

theorem negate (h : a.SameValue a') : (Tree.negate a).SameValue (.negate a') := by
  constructor
  · simp only [Tree.eval, h.eval]
  · simp only [Tree.inDegrees, Tree.eval, h.inDegrees]
  · simpa only [height] using Nat.succ_le_succ h.height_le
  · simpa only [height] using Nat.succ_le_succ h.le_height

theorem apply (f : UnaryFunction) (h : a.SameValue a') :
    (Tree.apply f a).SameValue (.apply f a') := by
  constructor
  · simp only [Tree.eval, h.eval]
  · simp only [Tree.inDegrees, Tree.eval]
    split
    · simp only [radians, Tree.eval, h.inDegrees]
    · rw [h.inDegrees]
  · simpa only [height] using Nat.succ_le_succ h.height_le
  · simpa only [height] using Nat.succ_le_succ h.le_height

theorem power (ha : a.SameValue a') (hb : b.SameValue b') :
    (Tree.power a b).SameValue (.power a' b') := by
  have := ha.height_le
  have := ha.le_height
  have := hb.height_le
  have := hb.le_height
  constructor
  · simp only [Tree.eval, ha.eval, hb.eval]
  · simp only [Tree.inDegrees, Tree.eval, ha.inDegrees, hb.inDegrees]
  · simp only [height]
    omega
  · simp only [height]
    omega

theorem binary (op : BinaryOperator) (ha : a.SameValue a') (hb : b.SameValue b') :
    (Tree.binary op a b).SameValue (.binary op a' b') := by
  have := ha.height_le
  have := ha.le_height
  have := hb.height_le
  have := hb.le_height
  constructor
  · simp only [Tree.eval, ha.eval, hb.eval]
  · simp only [Tree.inDegrees, Tree.eval, ha.inDegrees, hb.inDegrees]
  · simp only [height]
    omega
  · simp only [height]
    omega

theorem value (h : a.SameValue a') (degrees : Bool) :
    (if degrees then a'.inDegrees else a').value = (if degrees then a.inDegrees else a).value := by
  have heval : (if degrees then a'.inDegrees else a').eval =
      (if degrees then a.inDegrees else a).eval := by
    cases degrees with
    | false => exact h.eval
    | true => exact h.inDegrees
  rw [Tree.value, Tree.value, heval]

end SameValue

section Lists

variable {α : Type} {xs ys before after : List α} {y : α}

theorem exists_of_append_eq_append_cons (h : xs ++ ys = before ++ y :: after) :
    (∃ inner, xs = before ++ y :: inner ∧ after = inner ++ ys) ∨
      ∃ inner, before = xs ++ inner ∧ ys = inner ++ y :: after := by
  rcases List.append_eq_append_iff.1 h with ⟨inner, rfl, hys⟩ | ⟨inner, rfl, hafter⟩
  · exact .inr ⟨inner, rfl, hys⟩
  · cases inner with
    | nil => exact .inr ⟨[], by simp, hafter.symm⟩
    | cons x inner =>
        obtain ⟨rfl, rfl⟩ := List.cons_eq_cons.1 hafter
        exact .inl ⟨inner, rfl, rfl⟩

theorem exists_of_concat_eq {x : α} (h : xs ++ [x] = before ++ y :: after) (hne : x ≠ y) :
    ∃ inner, xs = before ++ y :: inner ∧ after = inner ++ [x] := by
  rcases exists_of_append_eq_append_cons h with hxs | ⟨inner, rfl, hx⟩
  · exact hxs
  · cases inner with
    | nil => exact absurd (List.cons_eq_cons.1 hx).1 hne
    | cons z inner => simp at hx

end Lists

theorem exists_replacement {x : Float} {u : Tree} (hu : (number x).SameValue u) {t : Tree}
    {before after : List Token} (h : t.postfixOrder = before ++ .number x :: after) :
    ∃ t', t.SameValue t' ∧ t'.postfixOrder = before ++ (u.postfixOrder ++ after) := by
  induction t generalizing before after with
  | number y =>
      rcases List.append_eq_singleton_iff.1 h.symm with ⟨rfl, hy⟩ | ⟨-, hy⟩
      · obtain ⟨hy, rfl⟩ := List.cons_eq_cons.1 hy
        cases hy
        exact ⟨u, hu, by simp⟩
      · cases hy
  | pi | euler =>
      rcases List.append_eq_singleton_iff.1 h.symm with ⟨-, hy⟩ | ⟨-, hy⟩ <;> cases hy
  | negate a ih =>
      obtain ⟨inner, ha, rfl⟩ := exists_of_concat_eq h (by simp)
      obtain ⟨a', hsame, hpostfix⟩ := ih ha
      exact ⟨.negate a', hsame.negate, by simp [postfixOrder, hpostfix]⟩
  | apply f a ih =>
      obtain ⟨inner, ha, rfl⟩ := exists_of_concat_eq h (by simp)
      obtain ⟨a', hsame, hpostfix⟩ := ih ha
      exact ⟨.apply f a', hsame.apply f, by simp [postfixOrder, hpostfix]⟩
  | power a b iha ihb =>
      obtain ⟨inner, hab, rfl⟩ := exists_of_concat_eq h (by simp)
      rcases exists_of_append_eq_append_cons hab with ⟨inner, ha, rfl⟩ | ⟨inner, rfl, hb⟩
      · obtain ⟨a', hsame, hpostfix⟩ := iha ha
        exact ⟨.power a' b, hsame.power (.refl b), by simp [postfixOrder, hpostfix]⟩
      · obtain ⟨b', hsame, hpostfix⟩ := ihb hb
        exact ⟨.power a b', .power (.refl a) hsame, by simp [postfixOrder, hpostfix]⟩
  | binary op a b iha ihb =>
      obtain ⟨inner, hab, rfl⟩ := exists_of_concat_eq h (by simp)
      rcases exists_of_append_eq_append_cons hab with ⟨inner, ha, rfl⟩ | ⟨inner, rfl, hb⟩
      · obtain ⟨a', hsame, hpostfix⟩ := iha ha
        exact ⟨.binary op a' b, hsame.binary op (.refl b), by simp [postfixOrder, hpostfix]⟩
      · obtain ⟨b', hsame, hpostfix⟩ := ihb hb
        exact ⟨.binary op a b', .binary op (.refl a) hsame, by simp [postfixOrder, hpostfix]⟩

end Tree

theorem evaluateTokens_of_toPostfix {ts : List Token} {t : Tree} (degrees : Bool)
    (h : toPostfix ts = .ok t.postfixOrder) :
    evaluateTokens degrees ts =
      if t.height ≤ maxHeight then (if degrees then t.inDegrees else t).value
        else .error (.failure .nestedTooDeeply) := by
  rw [evaluateTokens, h]
  change Tree.ofPostfix _ >>= _ = _
  rw [Tree.ofPostfix_postfixOrder]
  split <;> rfl

/-- Whether tokens make a tree that is higher than permitted. -/
def IsTooDeep (ts : List Token) : Prop :=
  ∃ t : Tree, toPostfix ts = .ok t.postfixOrder ∧ maxHeight < t.height

theorem exists_tree_of_toPostfix {ts ordered : List Token} (h : toPostfix ts = .ok ordered) :
    ∃ t : Tree, ordered = t.postfixOrder := by
  rw [← Lexeme.flatMap_tokens_map_token ts] at h
  obtain ⟨t, -, ht⟩ := exists_looselyDerives_of_toPostfix h
  exact ⟨t, ht⟩

theorem Tree.value_ne_nestedTooDeeply (t : Tree) :
    t.value ≠ .error (.failure .nestedTooDeeply) := by
  rw [value]
  split <;> simp

theorem evaluateTokens_eq_nestedTooDeeply_iff {degrees : Bool} {ts : List Token} :
    evaluateTokens degrees ts = .error (.failure .nestedTooDeeply) ↔ IsTooDeep ts := by
  constructor
  · intro h
    cases hordered : toPostfix ts with
    | error fault =>
        have hfault : fault = .failure .nestedTooDeeply := by
          rw [evaluateTokens, hordered] at h
          exact Except.error.inj h
        rw [hfault] at hordered
        exact absurd hordered (failsWith_toPostfix (fun _ hcause => hcause) ts).ne_error
    | ok ordered =>
        obtain ⟨t, rfl⟩ := exists_tree_of_toPostfix hordered
        refine ⟨t, hordered, Nat.lt_of_not_le fun hfits => ?_⟩
        rw [evaluateTokens_of_toPostfix degrees hordered, if_pos hfits] at h
        exact Tree.value_ne_nestedTooDeeply _ h
  · rintro ⟨t, ht, hheight⟩
    rw [evaluateTokens_of_toPostfix degrees ht, if_neg (Nat.not_le.2 hheight)]

section Replacement

variable {ts us : List Token} {c : Conversion} {x : Float}

theorem toPostfix_of_supplies_number (hrun : ts.foldlM step .start = .ok c) (hc : c.Ready)
    (h : Supplies us (.number x)) (vs : List Token) :
    toPostfix (ts ++ (us ++ vs)) = toPostfix (ts ++ .number x :: vs) := by
  have hnumber : toPostfix (ts ++ .number x :: vs) = _ :=
    toPostfix_of_supplies (supplies_operand (.number x)) hrun hc
  rw [toPostfix_of_supplies h hrun hc, hnumber]

theorem evaluateTokens_of_supplies {u : Tree} (hrun : ts.foldlM step .start = .ok c) (hc : c.Ready)
    (h : Supplies us u) (hu : (Tree.number x).SameValue u) (degrees : Bool) {vs : List Token}
    (hfits : ¬ IsTooDeep (ts ++ (us ++ vs))) :
    evaluateTokens degrees (ts ++ (us ++ vs)) = evaluateTokens degrees (ts ++ .number x :: vs) := by
  have hnumber : toPostfix (ts ++ .number x :: vs) = _ :=
    toPostfix_of_supplies (supplies_operand (.number x)) hrun hc
  have hoperand : toPostfix (ts ++ (us ++ vs)) = _ := toPostfix_of_supplies h hrun hc
  cases hrest : vs.foldlM step { c with output := [], afterValue := true } >>= finish with
  | error e =>
      rw [hrest] at hnumber hoperand
      rw [evaluateTokens, evaluateTokens, hnumber, hoperand]
      rfl
  | ok after =>
      rw [hrest] at hnumber hoperand
      obtain ⟨t, ht⟩ := exists_tree_of_toPostfix hnumber
      have hsplit : t.postfixOrder = c.output.reverse ++ .number x :: after := by
        rw [← ht]
        simp [Tree.postfixOrder]
      obtain ⟨t', hsame, ht'⟩ := Tree.exists_replacement hu hsplit
      have hordered' : toPostfix (ts ++ (us ++ vs)) = .ok t'.postfixOrder := by
        rw [hoperand, ht', ← List.append_assoc]
        rfl
      have hordered : toPostfix (ts ++ .number x :: vs) = .ok t.postfixOrder := by
        rw [hnumber, ← ht]
        rfl
      have hheight : t'.height ≤ maxHeight := Nat.le_of_not_lt fun hlt => hfits ⟨t', hordered', hlt⟩
      rw [evaluateTokens_of_toPostfix degrees hordered',
        evaluateTokens_of_toPostfix degrees hordered, if_pos hheight,
        if_pos (Nat.le_trans hsame.height_le hheight)]
      exact hsame.value degrees

/-- An operand with the value of a number differs from the number in its outcome only where it makes
a tree too high that the number does not. -/
theorem evaluateTokens_eq_iff_of_supplies {u : Tree} (hrun : ts.foldlM step .start = .ok c)
    (hc : c.Ready) (h : Supplies us u) (hu : (Tree.number x).SameValue u) (degrees : Bool)
    (vs : List Token) :
    evaluateTokens degrees (ts ++ (us ++ vs)) = evaluateTokens degrees (ts ++ .number x :: vs) ↔
      (IsTooDeep (ts ++ (us ++ vs)) → IsTooDeep (ts ++ .number x :: vs)) := by
  constructor
  · intro heq hdeep
    rw [← evaluateTokens_eq_nestedTooDeeply_iff, ← heq]
    exact evaluateTokens_eq_nestedTooDeeply_iff.2 hdeep
  · intro himp
    by_cases hdeep : IsTooDeep (ts ++ (us ++ vs))
    · rw [evaluateTokens_eq_nestedTooDeeply_iff.2 hdeep,
        evaluateTokens_eq_nestedTooDeeply_iff.2 (himp hdeep)]
    · exact evaluateTokens_of_supplies hrun hc h hu degrees hdeep

end Replacement

end TalkingCalculator
