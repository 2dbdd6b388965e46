import Mathlib.Algebra.Group.Nat.Defs
import TalkingCalculator.Number.Binary

namespace TalkingCalculator.Binary

variable {b : Binary}

theorem fractionCount_pos (b : Binary) : 0 < b.fractionCount :=
  Nat.two_pow_pos b.fractionBits

theorem scale_pos (b : Binary) : 0 < b.scale :=
  Nat.two_pow_pos b.depth

/-- Whether a mantissa fits a shift: only without a shift may its leading bit be missing. -/
def Fits (b : Binary) (mantissa shift : Nat) : Prop :=
  mantissa ≤ 2 * b.fractionCount ∧ (shift = 0 ∨ b.fractionCount ≤ mantissa)

theorem units_add_mul {mantissa shift : Nat} (h : b.Fits mantissa shift) :
    b.units (mantissa + shift * b.fractionCount) = mantissa * 2 ^ shift := by
  have hpos := b.fractionCount_pos
  obtain ⟨hle, hlow⟩ := h
  rcases Nat.lt_or_ge mantissa b.fractionCount with hlt | hge
  · obtain rfl : shift = 0 := by omega
    have hfield : (mantissa + 0 * b.fractionCount) / b.fractionCount = 0 := by
      rw [Nat.zero_mul, Nat.add_zero, Nat.div_eq_of_lt hlt]
    simp only [units, hfield]
    simp
  · obtain ⟨rest, rfl⟩ := Nat.exists_eq_add_of_le hge
    have hcode : b.fractionCount + rest + shift * b.fractionCount =
        rest + (shift + 1) * b.fractionCount := by
      rw [Nat.succ_mul]
      omega
    rcases Nat.lt_or_ge rest b.fractionCount with hrest | hrest
    · have hfield : (rest + (shift + 1) * b.fractionCount) / b.fractionCount = shift + 1 := by
        rw [Nat.add_mul_div_right _ _ hpos, Nat.div_eq_of_lt hrest, Nat.zero_add]
      rw [hcode, units, hfield, Nat.add_mul_mod_self_right, Nat.mod_eq_of_lt hrest]
      rfl
    · obtain rfl : rest = b.fractionCount := by omega
      have hcode' : b.fractionCount + (shift + 1) * b.fractionCount =
          (shift + 2) * b.fractionCount := by
        rw [Nat.succ_mul (shift + 1)]
        omega
      rw [hcode, hcode', units, Nat.mul_div_cancel _ hpos, Nat.mul_mod_left]
      change (b.fractionCount + 0) * 2 ^ (shift + 1) =
        (b.fractionCount + b.fractionCount) * 2 ^ shift
      rw [Nat.pow_succ, Nat.add_zero, ← Nat.two_mul, ← Nat.mul_assoc, Nat.mul_right_comm,
        Nat.mul_comm _ 2]

theorem exists_fits (b : Binary) (code : Nat) :
    ∃ mantissa shift, code = mantissa + shift * b.fractionCount ∧ mantissa < 2 * b.fractionCount ∧
      (shift = 0 ∨ b.fractionCount ≤ mantissa) := by
  have hpos := b.fractionCount_pos
  rcases Nat.lt_or_ge code b.fractionCount with hlt | hge
  · exact ⟨code, 0, by omega, by omega, .inl rfl⟩
  · obtain ⟨rest, rfl⟩ := Nat.exists_eq_add_of_le hge
    have hrest := Nat.mod_lt rest hpos
    refine ⟨b.fractionCount + rest % b.fractionCount, rest / b.fractionCount, ?_, by omega,
      .inr (by omega)⟩
    rw [Nat.add_assoc, Nat.mod_add_div']

theorem units_succ {mantissa shift : Nat} (hlt : mantissa < 2 * b.fractionCount)
    (hlow : shift = 0 ∨ b.fractionCount ≤ mantissa) :
    b.units (mantissa + shift * b.fractionCount + 1) =
      b.units (mantissa + shift * b.fractionCount) + 2 ^ shift := by
  have hnext : mantissa + shift * b.fractionCount + 1 = mantissa + 1 + shift * b.fractionCount := by
    omega
  rw [hnext, units_add_mul ⟨by omega, by omega⟩, units_add_mul ⟨by omega, hlow⟩, Nat.succ_mul]

theorem units_lt_units_succ (b : Binary) (code : Nat) : b.units code < b.units (code + 1) := by
  obtain ⟨mantissa, shift, rfl, hlt, hlow⟩ := b.exists_fits code
  rw [units_succ hlt hlow]
  exact Nat.lt_add_of_pos_right (Nat.two_pow_pos shift)

theorem units_le_units {c d : Nat} (h : c ≤ d) : b.units c ≤ b.units d := by
  induction h with
  | refl => exact Nat.le_refl _
  | step h ih => exact Nat.le_trans ih (Nat.le_of_lt (b.units_lt_units_succ _))

theorem units_lt_units {c d : Nat} (h : c < d) : b.units c < b.units d :=
  Nat.lt_of_lt_of_le (b.units_lt_units_succ c) (units_le_units h)

theorem units_zero (b : Binary) : b.units 0 = 0 := by
  simp [units]

theorem units_first (b : Binary) (shift : Nat) :
    b.units (b.fractionCount + (shift + 1) * b.fractionCount + 1) =
      b.units (b.fractionCount + (shift + 1) * b.fractionCount) + 2 ^ (shift + 1) := by
  have hpos := b.fractionCount_pos
  exact units_succ (by omega) (.inr (Nat.le_refl _))

theorem units_steps (b : Binary) (code : Nat) :
    2 * b.units (code + 1) = b.units code + b.units (code + 1 + 1) ∨
      2 * b.units (code + 1) ≤ b.units code + b.units (code + 1 + 1) ∧
        ∃ shift, code + 1 = b.fractionCount + (shift + 1) * b.fractionCount := by
  obtain ⟨mantissa, shift, rfl, hlt, hlow⟩ := b.exists_fits code
  have hpos := b.fractionCount_pos
  have hstep := units_succ hlt hlow
  rcases Nat.lt_or_ge (mantissa + 1) (2 * b.fractionCount) with hlt' | hge
  · have hstep' : b.units (mantissa + 1 + shift * b.fractionCount + 1) =
        b.units (mantissa + 1 + shift * b.fractionCount) + 2 ^ shift :=
      units_succ hlt' (by omega)
    rw [Nat.add_right_comm mantissa 1] at hstep'
    omega
  · have hstep' := b.units_first shift
    have hnext : mantissa + shift * b.fractionCount + 1 =
        b.fractionCount + (shift + 1) * b.fractionCount := by
      rw [Nat.succ_mul]
      omega
    rw [← hnext, Nat.pow_succ] at hstep'
    exact .inr ⟨by omega, shift, hnext⟩

end TalkingCalculator.Binary
