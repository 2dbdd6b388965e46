import TalkingCalculator.Proofs.FaultKinds
import TalkingCalculator.Proofs.TreeRebuilding

namespace TalkingCalculator.Tree

namespace Stack

/-- `Holds ts stack` says that the tokens `ts` are the postfix orders of the trees on the stack, one
after another from the bottom, and that each tree stands beside its height, which is permitted. -/
inductive Holds : List Token → Stack → Prop
  | nil : Holds [] []
  | cons {ts : List Token} {below : Stack} {t : Tree} :
      Holds ts below → t.height ≤ maxHeight → Holds (ts ++ t.postfixOrder) ((t, t.height) :: below)

variable {ts us : List Token} {stack below next : Stack} {token : Token}

theorem Holds.push {t : Tree} {childHeight : Nat} (h : Holds ts below)
    (hheight : t.height = childHeight + 1) (hpush : Stack.push below t childHeight = .ok next) :
    Holds (ts ++ t.postfixOrder) next := by
  rw [push_eq, ← hheight] at hpush
  split at hpush
  · next hle =>
      obtain rfl := Except.ok.inj hpush
      exact .cons h hle
  · cases hpush

theorem Holds.exists_one {a : Tree} {ha : Nat} (h : Holds ts ((a, ha) :: below)) :
    ∃ before, Holds before below ∧ ts = before ++ a.postfixOrder ∧ ha = a.height := by
  cases h with
  | cons h hheight => exact ⟨_, h, rfl, rfl⟩

theorem Holds.exists_two {a b : Tree} {ha hb : Nat} (h : Holds ts ((b, hb) :: (a, ha) :: below)) :
    ∃ before, Holds before below ∧ ts = before ++ (a.postfixOrder ++ b.postfixOrder) ∧
      ha = a.height ∧ hb = b.height := by
  obtain ⟨middle, hmiddle, rfl, rfl⟩ := h.exists_one
  obtain ⟨before, hbefore, rfl, rfl⟩ := hmiddle.exists_one
  exact ⟨before, hbefore, List.append_assoc _ _ _, rfl, rfl⟩

theorem Holds.call {w : String} {count : Nat} (h : Holds ts stack)
    (hcall : stack.call w count = .ok next) :
    Holds (ts ++ [.call w count]) next := by
  unfold Stack.call at hcall
  split at hcall
  · cases hcall
  split at hcall
  · next hpower =>
      obtain ⟨rfl, rfl⟩ := hpower
      split at hcall
      · next b hb a ha below _ =>
          obtain ⟨before, hbefore, rfl, rfl, rfl⟩ := h.exists_two
          rw [List.append_assoc]
          exact hbefore.push (t := .power a b) rfl hcall
      · cases hcall
  split at hcall
  · next hone =>
      subst hone
      split at hcall
      · next a ha below f hname _ =>
          obtain rfl := UnaryFunction.ofName?_eq_some_iff.1 hname
          obtain ⟨before, hbefore, rfl, rfl⟩ := h.exists_one
          rw [List.append_assoc]
          exact hbefore.push (t := .apply f a) rfl hcall
      · cases hcall
  · cases hcall

/-- A token that is read is appended to the tokens that the stack holds. -/
theorem Holds.step (h : Holds ts stack) (hstep : stack.step token = .ok next) :
    Holds (ts ++ [token]) next := by
  have hleaf : 1 ≤ maxHeight := by decide
  cases token with
  | number x =>
      obtain rfl := Except.ok.inj hstep
      exact .cons (t := .number x) h hleaf
  | pi =>
      obtain rfl := Except.ok.inj hstep
      exact .cons (t := .pi) h hleaf
  | euler =>
      obtain rfl := Except.ok.inj hstep
      exact .cons (t := .euler) h hleaf
  | negation =>
      simp only [Stack.step] at hstep
      split at hstep
      · next a ha below =>
          obtain ⟨before, hbefore, rfl, rfl⟩ := h.exists_one
          rw [List.append_assoc]
          exact hbefore.push (t := .negate a) rfl hstep
      · cases hstep
  | operator op =>
      simp only [Stack.step] at hstep
      split at hstep
      · next b hb a ha below =>
          obtain ⟨before, hbefore, rfl, rfl, rfl⟩ := h.exists_two
          rw [List.append_assoc]
          exact hbefore.push (t := .binary op a b) rfl hstep
      · cases hstep
  | call w count => exact h.call hstep
  | name | opening | closing | comma => cases hstep

theorem Holds.run (h : Holds ts stack) (hrun : us.foldlM Stack.step stack = .ok next) :
    Holds (ts ++ us) next := by
  induction us generalizing ts stack with
  | nil =>
      obtain rfl := Except.ok.inj hrun
      rwa [List.append_nil]
  | cons token us ih =>
      rw [List.foldlM_cons] at hrun
      obtain ⟨middle, hstep, hrest⟩ := exists_of_bind_eq_ok hrun
      have hholds := ih (h.step hstep) hrest
      rwa [List.append_assoc] at hholds

theorem failsOnly_push (below : Stack) (t : Tree) (childHeight : Nat) :
    FailsOnly (Stack.push below t childHeight) := by
  rw [push_eq]
  split
  · exact .ok _
  · exact .failure _

theorem failsOnly_call (stack : Stack) (w : String) (count : Nat) :
    FailsOnly (stack.call w count) := by
  unfold Stack.call
  split
  · exact .failure _
  split
  · split
    · exact failsOnly_push _ _ _
    · exact .failure _
  split
  · split
    · exact failsOnly_push _ _ _
    · exact .failure _
  · exact .failure _

theorem failsOnly_step (stack : Stack) (token : Token) : FailsOnly (stack.step token) := by
  cases token with
  | number | pi | euler => exact .ok _
  | negation | operator =>
      simp only [Stack.step]
      split
      · exact failsOnly_push _ _ _
      · exact .failure _
  | call w count => exact failsOnly_call stack w count
  | name | opening | closing | comma => exact .failure _

end Stack

theorem failsOnly_ofPostfix (ts : List Token) : FailsOnly (ofPostfix ts) := by
  refine (FailsOnly.foldlM Stack.failsOnly_step ts []).bind fun stack _ => ?_
  split
  · exact .ok _
  · exact .failure _

theorem eq_postfixOrder_of_ofPostfix {ts : List Token} {t : Tree} (h : ofPostfix ts = .ok t) :
    ts = t.postfixOrder ∧ t.height ≤ maxHeight := by
  obtain ⟨stack, hrun, hlast⟩ := exists_of_bind_eq_ok h
  have hholds : Stack.Holds ts stack := Stack.Holds.nil.run hrun
  split at hlast
  · obtain rfl := Except.ok.inj hlast
    cases hholds with
    | cons hbelow hheight =>
        cases hbelow
        exact ⟨rfl, hheight⟩
  · cases hlast

/-- Tokens build a tree exactly if they are its postfix order and it is not too high. Tokens that
build none fail. -/
theorem ofPostfix_inverts_postfixOrder (ts : List Token) :
    (∀ t, ofPostfix ts = .ok t ↔ ts = t.postfixOrder ∧ t.height ≤ maxHeight) ∧
      ((∃ cause, ofPostfix ts = .error (.failure cause)) ↔
        ∀ t : Tree, ts = t.postfixOrder → maxHeight < t.height) := by
  have hiff : ∀ t, ofPostfix ts = .ok t ↔ ts = t.postfixOrder ∧ t.height ≤ maxHeight := by
    intro t
    refine ⟨eq_postfixOrder_of_ofPostfix, ?_⟩
    rintro ⟨rfl, hheight⟩
    rw [ofPostfix_postfixOrder, if_pos hheight]
  refine ⟨hiff, ?_⟩
  constructor
  · rintro ⟨cause, hcause⟩ t rfl
    by_contra hle
    rw [(hiff t).2 ⟨rfl, Nat.le_of_not_lt hle⟩] at hcause
    cases hcause
  · intro hhigh
    cases hresult : ofPostfix ts with
    | ok t =>
        obtain ⟨hts, hheight⟩ := (hiff t).1 hresult
        exact absurd (hhigh t hts) (Nat.not_lt.2 hheight)
    | error fault =>
        obtain ⟨cause, rfl⟩ := failsOnly_ofPostfix ts fault hresult
        exact ⟨cause, rfl⟩

end TalkingCalculator.Tree
