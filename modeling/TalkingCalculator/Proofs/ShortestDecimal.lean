import TalkingCalculator.Number.Decimal
import TalkingCalculator.Proofs.NearestCode

namespace TalkingCalculator

namespace Binary

/-- The fractions of a format with enough exponents: no power of ten beyond these matters. -/
def IsRegular (b : Binary) : Prop :=
  0 < b.fractionBits ∧ b.fractionBits ≤ b.fieldCount

theorem isRegular_double : double.IsRegular :=
  ⟨by decide, by decide⟩

variable {b : Binary} {num den : Nat}

theorem two_pow_le_ten_pow (k : Nat) : 2 ^ (3 * k) ≤ 10 ^ k := by
  rw [Nat.pow_mul]
  exact Nat.pow_le_pow_left (by decide) k

theorem nearest_zero (hb : b.IsRegular) (hden : 0 < den) : b.nearest 0 den = 0 := by
  have hself := IsNearest.self b hden 0
  rw [units_zero, Nat.zero_mul] at hself
  rw [nearest_eq_min, Nat.zero_mul, unboundedNearest_eq_of_isNearest hb.1 hden hself]
  exact Nat.min_zero _

theorem nearest_eq_zero (hb : b.IsRegular) (h : 2 * (num * b.scale) < den) :
    b.nearest num den = 0 := by
  have hden : 0 < den := Nat.zero_lt_of_lt h
  have hunits : den ≤ (b.units 0 + b.units 1) * den := by
    have hstep : b.units 0 < b.units 1 := units_lt_units Nat.zero_lt_one
    exact Nat.le_mul_of_pos_left den (by omega)
  have hnearest : b.IsNearest (num * b.scale) den 0 :=
    ⟨Nat.le_trans (by omega) hunits, fun _ => rfl, fun c hc => by omega, fun c hc => by omega⟩
  rw [nearest_eq_min, unboundedNearest_eq_of_isNearest hb.1 hden hnearest]
  exact Nat.min_zero _

theorem nearest_eq_infinity (hden : 0 < den)
    (h : den * 2 ^ (b.fractionBits + b.fieldCount) ≤ num * b.scale) :
    b.nearest num den = b.infinity := by
  -- A quotient that needs more shifts than there are exponent fields is rounded to infinity.
  have hquotient : 2 ^ (b.fractionBits + b.fieldCount) ≤ num * b.scale / den := by
    rw [Nat.le_div_iff_mul_le hden, Nat.mul_comm]
    exact h
  have hne : num * b.scale / den ≠ 0 := by
    have hpos := Nat.two_pow_pos (b.fractionBits + b.fieldCount)
    omega
  have hlog := (Nat.le_log2 hne).2 hquotient
  have hshift : b.fieldCount ≤ b.shiftOf (num * b.scale) den := by
    rw [shiftOf]
    omega
  have hcode : b.infinity ≤ b.unboundedNearest (num * b.scale) den := by
    have hmul : (b.fieldCount - 1) * b.fractionCount ≤
        b.shiftOf (num * b.scale) den * b.fractionCount :=
      Nat.mul_le_mul_right _ (by omega)
    exact Nat.le_trans hmul (Nat.le_add_left _ _)
  rw [nearest_eq_min]
  exact Nat.min_eq_left hcode

end Binary

namespace Decimal

variable {b : Binary}

theorem depth_eq (b : Binary) : b.depth = b.fieldCount / 2 - 2 + b.fractionBits :=
  rfl

theorem two_pow_le_of_exponent_gt {coefficient : Nat} {exponent : Int} (hne : coefficient ≠ 0)
    (h : exponent > b.fieldCount) :
    10 ^ (-exponent).toNat * 2 ^ (b.fractionBits + b.fieldCount) ≤
      coefficient * 10 ^ exponent.toNat * b.scale := by
  have hzero : (-exponent).toNat = 0 := by omega
  have hdepth := depth_eq b
  rw [hzero, Nat.pow_zero, Nat.one_mul]
  calc 2 ^ (b.fractionBits + b.fieldCount)
      ≤ 2 ^ (3 * exponent.toNat + b.depth) := Nat.pow_le_pow_right (by decide) (by omega)
    _ = 2 ^ (3 * exponent.toNat) * b.scale := Nat.pow_add _ _ _
    _ ≤ 10 ^ exponent.toNat * b.scale := Nat.mul_le_mul_right _ (Binary.two_pow_le_ten_pow _)
    _ ≤ coefficient * (10 ^ exponent.toNat * b.scale) :=
    Nat.le_mul_of_pos_left _ (Nat.pos_of_ne_zero hne)
    _ = coefficient * 10 ^ exponent.toNat * b.scale := (Nat.mul_assoc _ _ _).symm

theorem lt_ten_pow_of_exponent_lt (hb : b.IsRegular) {coefficient : Nat} {exponent : Int}
    (h : exponent < -(b.fieldCount + coefficient.log2 : Int)) :
    2 * (coefficient * 10 ^ exponent.toNat * b.scale) < 10 ^ (-exponent).toNat := by
  have hzero : exponent.toNat = 0 := by omega
  have hdepth := depth_eq b
  have hbits := hb.2
  rw [hzero, Nat.pow_zero, Nat.mul_one]
  calc 2 * (coefficient * b.scale)
      < 2 * (2 ^ (coefficient.log2 + 1) * b.scale) :=
        Nat.mul_lt_mul_of_pos_left (Nat.mul_lt_mul_of_pos_right Nat.lt_log2_self b.scale_pos)
          (by decide)
    _ = 2 ^ (coefficient.log2 + 1 + b.depth + 1) := by
        rw [Nat.pow_succ _ (_ + b.depth), Nat.pow_add _ _ b.depth, Nat.mul_comm 2]
        rfl
    _ ≤ 2 ^ (3 * (-exponent).toNat) := Nat.pow_le_pow_right (by decide) (by omega)
    _ ≤ 10 ^ (-exponent).toNat := Binary.two_pow_le_ten_pow _

/-- The shortcuts for extreme exponents do not change what a decimal is rounded to. -/
theorem nearest_eq (hb : b.IsRegular) (d : Decimal) :
    d.nearest b = b.nearest (d.coefficient * 10 ^ d.exponent.toNat) (10 ^ (-d.exponent).toNat) := by
  have hden : 0 < 10 ^ (-d.exponent).toNat := Nat.pow_pos (by decide)
  obtain ⟨coefficient, exponent⟩ := d
  rw [nearest]
  split
  · next h =>
      dsimp only at h
      subst h
      rw [Nat.zero_mul, Binary.nearest_zero hb hden]
  · next hne =>
      dsimp only at hne
      split
      · next h =>
          refine (Binary.nearest_eq_infinity hden ?_).symm
          exact two_pow_le_of_exponent_gt hne h
      · split
        · next h =>
            refine (Binary.nearest_eq_zero hb ?_).symm
            exact lt_ten_pow_of_exponent_lt hb h
        · rfl

theorem nearest_tenfold (hb : b.IsRegular) (coefficient : Nat) (exponent : Int) :
    nearest b ⟨coefficient * 10, exponent⟩ = nearest b ⟨coefficient, exponent + 1⟩ := by
  rw [nearest_eq hb, nearest_eq hb]
  dsimp only
  rcases Int.lt_or_le exponent 0 with hneg | hnonneg
  · have hnum : exponent.toNat = 0 ∧ (exponent + 1).toNat = 0 := by omega
    have hden : (-exponent).toNat = (-(exponent + 1)).toNat + 1 := by omega
    rw [hnum.1, hnum.2, hden, Nat.pow_zero, Nat.mul_one, Nat.mul_one, Nat.pow_succ,
      Nat.mul_comm coefficient, Nat.mul_comm (10 ^ _),
      Binary.nearest_mul_left hb.1 (Nat.pow_pos (by decide)) (by decide)]
  · have hden : (-exponent).toNat = 0 ∧ (-(exponent + 1)).toNat = 0 := by omega
    have hnum : (exponent + 1).toNat = exponent.toNat + 1 := by omega
    rw [hden.1, hden.2, hnum, Nat.pow_succ, Nat.mul_assoc, Nat.mul_comm 10]

theorem nearest_dropZeros (hb : b.IsRegular) (limit : Nat) (d : Decimal) :
    (dropZeros limit d).nearest b = d.nearest b := by
  induction limit generalizing d with
  | zero => rfl
  | succ limit ih =>
      rw [dropZeros]
      split
      · next h =>
          have htens : d.coefficient / 10 * 10 = d.coefficient :=
            Nat.div_mul_cancel (Nat.dvd_of_mod_eq_zero h.2)
          rw [ih, ← nearest_tenfold hb, htens]
      · rfl

theorem nearest_of_onGrid? {code num den : Nat} {grid : Int} {d : Decimal}
    (h : onGrid? b code num den grid = some d) : d.nearest b = code := by
  simp only [onGrid?] at h
  split at h
  · next hreads =>
      cases h
      simp only [Bool.and_eq_true, decide_eq_true_eq] at hreads
      exact hreads.1
  · split at h
    · next hreads =>
        cases h
        exact of_decide_eq_true hreads
    · cases h

theorem nearest_exact (hb : b.IsRegular) {code : Nat} (h : code ≤ b.infinity) :
    (exact b code).nearest b = code := by
  have hten : 10 ^ b.depth = 5 ^ b.depth * b.scale := Nat.mul_pow 5 2 b.depth
  have hnum : (-(b.depth : Int)).toNat = 0 := by omega
  have hden : (- -(b.depth : Int)).toNat = b.depth := by omega
  rw [nearest_eq hb]
  simp only [exact, hnum, hden, Nat.pow_zero, Nat.mul_one]
  change b.nearest (b.units code * 5 ^ b.depth) _ = code
  rw [hten, Nat.mul_comm (b.units code),
    Binary.nearest_mul_left hb.1 b.scale_pos (Nat.pow_pos (by decide)), Binary.nearest_units hb.1 h]

theorem nearest_shortest (hb : b.IsRegular) {code : Nat} (h : code ≤ b.infinity) :
    (shortest b code).nearest b = code := by
  simp only [shortest]
  rw [nearest_dropZeros hb]
  cases hfound : (List.range 18).findSome? fun (i : Nat) =>
      onGrid? b code (b.units code) b.scale
        ((digits (b.units code)).length - (digits b.scale).length - i) with
  | none => exact nearest_exact hb h
  | some d =>
      obtain ⟨i, -, hgrid⟩ := List.exists_of_findSome?_eq_some hfound
      exact nearest_of_onGrid? hgrid

end Decimal

end TalkingCalculator
