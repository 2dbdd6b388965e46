import TalkingCalculator.Proofs.NearestCode

namespace TalkingCalculator.Binary.IsNearest

variable {b : Binary} {den code start product : Nat}

theorem of_lt_product (hstart : b.IsNearest (b.units start) den code)
    (hproduct : b.IsNearest (b.units code * den) 1 product) (hlt : start < product) :
    b.IsNearest (b.units product) den code := by
  -- If the product came out too large, the quotient does not rise: its distance to the number
  -- bounds the way up, because the step above a code is at least the one below.
  have hmid := hproduct.add_le_of_lt hlt
  have hgrow := units_lt_units (b := b) hlt
  rw [Nat.mul_one] at hmid
  obtain ⟨habove, -, hbelow, heven⟩ := hstart
  cases code with
  | zero =>
      rw [b.units_zero, Nat.zero_mul] at hmid
      omega
  | succ c =>
      have hbelow' := hbelow c rfl
      have heven' := heven c rfl
      have hsteps : (2 * b.units (c + 1)) * den ≤ (b.units c + b.units (c + 1 + 1)) * den := by
        refine Nat.mul_le_mul_right den ?_
        rcases b.units_steps c with heq | hle
        · exact Nat.le_of_eq heq
        · exact hle.1
      rw [Nat.add_mul] at habove hbelow' heven'
      rw [Nat.mul_assoc, Nat.add_mul] at hsteps
      refine ⟨?_, ?_, ?_, ?_⟩
      · rw [Nat.add_mul]
        omega
      · rw [Nat.add_mul]
        exact fun heq => heven' (by omega)
      · rintro d hd
        obtain rfl : d = c := by omega
        rw [Nat.add_mul]
        omega
      · rintro d hd heq
        obtain rfl : d = c := by omega
        rw [Nat.add_mul] at heq
        omega

theorem of_product_lt (hstart : b.IsNearest (b.units start) den code)
    (hproduct : b.IsNearest (b.units code * den) 1 product) (hlt : product < start)
    (hfirst : ∀ shift, code ≠ b.fractionCount + (shift + 1) * b.fractionCount) :
    b.IsNearest (b.units product) den code := by
  -- If the product came out too small, the quotient does not fall, except perhaps from a code
  -- where the step doubles.
  have hmid := hproduct.le_add_of_lt hlt
  have hgrow := units_lt_units (b := b) hlt
  rw [Nat.mul_one] at hmid
  obtain ⟨habove, heven, -, -⟩ := hstart
  rw [Nat.add_mul] at habove heven
  refine ⟨?_, ?_, ?_, ?_⟩
  · rw [Nat.add_mul]
    omega
  · rw [Nat.add_mul]
    intro heq
    omega
  all_goals
    rintro c rfl
    have hsteps : (2 * b.units (c + 1)) * den = (b.units c + b.units (c + 1 + 1)) * den := by
      rcases b.units_steps c with heq | ⟨-, shift, hc⟩
      · rw [heq]
      · exact absurd hc (hfirst shift)
    rw [Nat.mul_assoc, Nat.add_mul] at hsteps
    rw [Nat.add_mul]
  · omega
  · exact fun heq => heven (by omega)

/-- Dividing the rounded product gives the code that was multiplied, provided the product is exact
where the step doubles. -/
theorem of_product (hden : 0 < den) (hstart : b.IsNearest (b.units start) den code)
    (hproduct : b.IsNearest (b.units code * den) 1 product)
    (hfirst : ∀ shift, code = b.fractionCount + (shift + 1) * b.fractionCount →
      b.units product = b.units code * den) :
    b.IsNearest (b.units product) den code := by
  rcases Nat.lt_trichotomy start product with hlt | rfl | hlt
  · exact hstart.of_lt_product hproduct hlt
  · exact hstart
  · by_cases hexact : b.units product = b.units code * den
    · rw [hexact]
      exact IsNearest.self b hden code
    · exact hstart.of_product_lt hproduct hlt fun shift hcode => hexact (hfirst shift hcode)

end TalkingCalculator.Binary.IsNearest
