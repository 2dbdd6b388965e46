import TalkingCalculator.Expression.Input

namespace TalkingCalculator

def IsVisible (c : Char) : Prop :=
  0x21 ≤ c.toNat ∧ c.toNat ≤ 0x7E

instance (c : Char) : Decidable (IsVisible c) :=
  inferInstanceAs (Decidable (_ ∧ _))

theorem isVisible_of_isDigit {c : Char} (h : c.isDigit = true) : IsVisible c := by
  simp only [Char.isDigit, Bool.and_eq_true, decide_eq_true_eq, ge_iff_le,
    UInt32.le_iff_toNat_le] at h
  have h0 : ('0' : Char).val.toNat = 0x30 := rfl
  have h9 : ('9' : Char).val.toNat = 0x39 := rfl
  simp only [IsVisible, Char.toNat]
  omega

theorem isVisible_of_isMantissa {c : Char} (h : Lexer.isMantissa c = true) : IsVisible c := by
  simp only [Lexer.isMantissa, Bool.or_eq_true, decide_eq_true_eq] at h
  rcases h with h | rfl
  · exact isVisible_of_isDigit h
  · decide

theorem isAlpha_iff {c : Char} :
    c.isAlpha = true ↔ 0x41 ≤ c.toNat ∧ c.toNat ≤ 0x5A ∨ 0x61 ≤ c.toNat ∧ c.toNat ≤ 0x7A := by
  change (decide ('A'.val ≤ c.val ∧ c.val ≤ 'Z'.val) ||
    (decide ('a'.val ≤ c.val) && decide (c.val ≤ 'z'.val))) = true ↔ _
  simp only [Bool.or_eq_true, Bool.and_eq_true, decide_eq_true_eq, UInt32.le_iff_toNat_le]
  rfl

theorem isVisible_of_isAlpha {c : Char} (h : c.isAlpha = true) : IsVisible c := by
  rw [isAlpha_iff] at h
  rw [IsVisible]
  omega

theorem isBlank_eq_false {c : Char} (h : IsVisible c) : Text.isBlank c = false := by
  obtain ⟨hlow, hhigh⟩ := h
  simp [Text.isBlank, Text.inRanges, Text.blankRanges]
  omega

theorem not_isVisible_of_isBlank {c : Char} (h : Text.isBlank c = true) : ¬ IsVisible c := by
  intro hvisible
  rw [isBlank_eq_false hvisible] at h
  cases h

theorem isMantissa_of_isBlank {c : Char} (h : Text.isBlank c = true) :
    Lexer.isMantissa c = false := by
  cases hm : Lexer.isMantissa c with
  | false => rfl
  | true => exact absurd (isVisible_of_isMantissa hm) (not_isVisible_of_isBlank h)

theorem plain_eq_singleton {c : Char} (h : IsVisible c ∨ Text.isBlank c = true) :
    Input.plain c = [c] := by
  unfold Input.plain
  split
  case h_5 => rfl
  all_goals exact absurd h (by decide)

end TalkingCalculator
