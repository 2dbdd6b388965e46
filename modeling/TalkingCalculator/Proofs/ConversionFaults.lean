import TalkingCalculator.Expression.Postfix

namespace TalkingCalculator

/-- Whether the faults of a result are all failures whose cause has a property. -/
def FailsWith {α : Type} (P : Failure → Prop) (r : Except Fault α) : Prop :=
  ∀ fault, r = .error fault → ∃ cause, fault = .failure cause ∧ P cause

namespace FailsWith

variable {α β : Type} {P : Failure → Prop} {r : Except Fault α}

theorem ok (a : α) : FailsWith P (.ok a) := by
  intro fault h
  cases h

theorem failure {cause : Failure} (h : P cause) :
    FailsWith P (.error (.failure cause) : Except Fault α) := by
  intro fault hfault
  cases hfault
  exact ⟨cause, rfl, h⟩

theorem bind {f : α → Except Fault β} (h : FailsWith P r)
    (hf : ∀ a, r = .ok a → FailsWith P (f a)) :
    FailsWith P (r >>= f) := by
  cases r with
  | error fault =>
      obtain ⟨cause, rfl, hcause⟩ := h fault rfl
      exact failure hcause
  | ok a => exact hf a rfl

theorem foldlM {step : α → β → Except Fault α} (h : ∀ a b, FailsWith P (step a b)) (bs : List β)
    (a : α) : FailsWith P (bs.foldlM step a) := by
  induction bs generalizing a with
  | nil => exact ok a
  | cons b bs ih =>
      rw [List.foldlM_cons]
      exact (h a b).bind fun a' _ => ih a'

theorem ne_error {cause : Failure} (h : FailsWith (· ≠ cause) r) : r ≠ .error (.failure cause) := by
  intro hfault
  obtain ⟨other, hother, hne⟩ := h _ hfault
  exact hne (Fault.failure.inj hother).symm

end FailsWith

namespace Conversion

variable {P : Failure → Prop}
  (hP : ∀ cause, cause ≠ .malformedCall → cause ≠ .nestedTooDeeply → P cause)

include hP

theorem failsWith_unstackToOpening (output ops : List Token) :
    FailsWith P (unstackToOpening output ops) := by
  fun_induction unstackToOpening output ops with
  | case1 => exact .failure (hP _ (by simp) (by simp))
  | case2 => exact .ok _
  | case3 output op ops hop ih => exact ih

theorem failsWith_unstackAll (output ops : List Token) : FailsWith P (unstackAll output ops) := by
  fun_induction unstackAll output ops with
  | case1 => exact .ok _
  | case2 output op ops hop ih => exact ih
  | case3 => exact .failure (hP _ (by simp) (by simp))

theorem failsWith_closeCall (c : Conversion) {call : Option Nat}
    (hname : P .malformedCall ∨ ∀ count, call = some count →
      ∃ w ops, c.operators = .name w :: ops) :
    FailsWith P (c.closeCall call) := by
  -- A call whose name is on top is not malformed.
  unfold closeCall
  split
  · exact .ok _
  · next count =>
      split
      · split
        · exact .ok _
        · exact .failure (hP _ (by simp) (by simp))
      · next hother =>
          refine .failure (hname.resolve_right fun hname => ?_)
          obtain ⟨w, ops, hops⟩ := hname count rfl
          exact hother w ops hops

theorem failsWith_close (c : Conversion)
    (hname : P .malformedCall ∨ ∀ moved call ps, unstackToOpening c.output c.operators = .ok moved →
      c.parentheses = call :: ps →
      ∀ count, call = some count →
        ∃ w ops, moved.2 = .opening :: .name w :: ops) : FailsWith P c.close := by
  unfold close
  split
  · exact .failure (hP _ (by simp) (by simp))
  · refine (failsWith_unstackToOpening hP _ _).bind fun moved hmoved => ?_
    dsimp only
    split
    · exact .failure (hP _ (by simp) (by simp))
    · next call ps hps =>
        refine failsWith_closeCall hP _ (hname.imp_right fun hname count hcount => ?_)
        obtain ⟨w, ops, hops⟩ := hname moved call ps hmoved hps count hcount
        exact ⟨w, ops, by rw [hops]; rfl⟩

theorem failsWith_separate (c : Conversion) : FailsWith P c.separate := by
  unfold separate
  split
  · exact .failure (hP _ (by simp) (by simp))
  · refine (failsWith_unstackToOpening hP _ _).bind fun moved _ => ?_
    dsimp only
    split
    · exact .ok _
    · exact .failure (hP _ (by simp) (by simp))

theorem failsWith_operate (c : Conversion) (op : BinaryOperator) : FailsWith P (c.operate op) := by
  unfold operate
  split
  · exact .ok _
  · split
    · exact .ok _
    · exact .ok _
    · exact .failure (hP _ (by simp) (by simp))

theorem failsWith_push (c : Conversion) (t : Token) : FailsWith P (c.push t) := by
  unfold push
  split
  · exact .failure (hP _ (by simp) (by simp))
  · exact .ok _

theorem failsWith_step (c : Conversion) (t : Token)
    (hclose : c.awaitsParenthesis = false → FailsWith P c.close) :
    FailsWith P (c.step t) := by
  unfold step
  split
  · exact .failure (hP _ (by simp) (by simp))
  · next hname =>
      cases t with
      | number | pi | euler => exact failsWith_push hP _ _
      | name | opening =>
          dsimp only
          split
          · exact .failure (hP _ (by simp) (by simp))
          · exact .ok _
      | comma => exact failsWith_separate hP _
      | closing => exact hclose (by simpa using hname)
      | operator op => exact failsWith_operate hP _ op
      | negation | call => exact .failure (hP _ (by simp) (by simp))

theorem failsWith_finish (c : Conversion) : FailsWith P c.finish := by
  unfold finish
  split
  · exact .failure (hP _ (by simp) (by simp))
  · split
    · exact .failure (hP _ (by simp) (by simp))
    · exact (failsWith_unstackAll hP _ _).bind fun _ _ => .ok _

end Conversion

open Conversion in
theorem failsWith_toPostfix {P : Failure → Prop} (hP : ∀ cause, cause ≠ .nestedTooDeeply → P cause)
    (ts : List Token) : FailsWith P (toPostfix ts) := by
  have hcauses : ∀ cause, cause ≠ .malformedCall → cause ≠ .nestedTooDeeply → P cause :=
    fun cause _ => hP cause
  have hcall : P .malformedCall := hP _ (by simp)
  have hstep : ∀ (c : Conversion) (t : Token), FailsWith P (c.step t) := fun c t =>
    failsWith_step hcauses c t fun _ => failsWith_close hcauses c (.inl hcall)
  exact (FailsWith.foldlM hstep ts .start).bind fun c _ => failsWith_finish hcauses c

end TalkingCalculator
