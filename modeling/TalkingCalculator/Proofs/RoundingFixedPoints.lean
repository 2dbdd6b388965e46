import TalkingCalculator.Proofs.BitPatterns
import TalkingCalculator.Proofs.RoundedProducts
import TalkingCalculator.Proofs.RoundingDrift

namespace TalkingCalculator

open Number

namespace Binary

variable {b : Binary} {code n : Nat}

theorem exists_eq_mul_scale (h : b.fractionCount * b.scale ≤ b.units code) :
    ∃ whole, b.units code = whole * b.scale := by
  obtain ⟨mantissa, shift, rfl, hlt, hlow⟩ := b.exists_fits code
  rw [units_add_mul ⟨Nat.le_of_lt hlt, hlow⟩] at h ⊢
  have hshift : b.depth ≤ shift := by
    refine Nat.le_of_not_lt fun hshift => ?_
    have hvalue := Nat.mul_lt_mul_of_pos_right hlt (Nat.two_pow_pos shift)
    have hpow := Nat.mul_le_mul_left b.fractionCount (Nat.pow_le_pow_right Nat.two_pos hshift)
    rw [← scale_eq_two_pow, Nat.pow_succ', ← Nat.mul_assoc, Nat.mul_comm b.fractionCount 2] at hpow
    exact Nat.lt_irrefl _ (Nat.lt_of_le_of_lt (Nat.le_trans hpow h) hvalue)
  refine ⟨mantissa * 2 ^ (shift - b.depth), ?_⟩
  rw [scale_eq_two_pow, Nat.mul_assoc, ← Nat.pow_add, Nat.sub_add_cancel hshift]

theorem countOf_mul_scale (h : b.fractionCount * b.scale ≤ b.units (b.scaledCode code)) :
    b.countOf code * b.scale = b.units (b.scaledCode code) := by
  obtain ⟨whole, hwhole⟩ := exists_eq_mul_scale h
  have hpos := b.scale_pos
  rw [countOf, hwhole, roundHalfUp_eq (Nat.le_add_right _ _) (by omega)]

theorem units_scaledCode_of_first (hb : b.IsWide) {shift : Nat}
    (hcode : code = b.fractionCount + (shift + 1) * b.fractionCount)
    (h : b.scaledCode code < b.infinity) :
    b.units (b.scaledCode code) = b.units code * placeUnits := by
  -- Where the step of the codes doubles, the product is exact.
  have hfits : b.Fits (placeUnits * 2 ^ 13) (40 + shift) := by
    rw [Fits, hb.fractionCount_eq]
    exact ⟨by decide, .inr (by decide)⟩
  have hvalue : b.units (placeUnits * 2 ^ 13 + (40 + shift) * b.fractionCount) =
      b.units code * placeUnits := by
    have hpow : 2 ^ 13 * 2 ^ (40 + shift) = b.fractionCount * 2 ^ (shift + 1) := by
      rw [hb.fractionCount_eq, ← Nat.pow_add, ← Nat.pow_add]
      congr 1
      omega
    rw [hcode, units_add_mul hfits, units_add_mul ⟨by omega, .inr (Nat.le_refl _)⟩, Nat.mul_assoc,
      hpow, Nat.mul_comm]
  have hself := IsNearest.self b Nat.one_pos (placeUnits * 2 ^ 13 + (40 + shift) * b.fractionCount)
  rw [Nat.mul_one, hvalue] at hself
  rw [(isNearest_scaledCode hb h).unique Nat.one_pos hself, hvalue]

theorem le_units_scaledCode (hb : b.IsWide) (hn : b.fractionCount < n)
    (h : b.ofCount n < b.infinity) (hscaled : b.scaledCode (b.ofCount n) < b.infinity) :
    b.fractionCount * b.scale ≤ b.units (b.scaledCode (b.ofCount n)) := by
  have hlimit := b.units_eq_fractionCount_mul_scale
  rw [← hlimit]
  refine units_le_units (Nat.le_of_not_lt fun hlt => ?_)
  have hmid := (isNearest_scaledCode hb hscaled).le_add_of_lt hlt
  have hunits := units_lt_units (b := b) hlt
  have hsize : b.fractionCount * placeUnits ≤ n * b.scale := by
    refine Nat.mul_le_mul (Nat.le_of_lt hn) ?_
    have hpow : 2 ^ 40 ≤ b.scale := Nat.pow_le_pow_right Nat.two_pos (Nat.le_of_lt hb.le_depth)
    exact Nat.le_trans (by decide) hpow
  obtain ⟨-, herror⟩ := unboundedNearest_relative_error placeUnits_pos hsize
  rw [unboundedNearest_ofCount hb h] at herror
  have hcount := Nat.mul_le_mul_right b.scale (Nat.succ_le_of_lt hn)
  rw [Nat.succ_mul] at hcount
  rw [hlimit, Nat.mul_one] at hmid
  rw [hlimit] at hunits
  rw [hb.fractionCount_eq] at hmid hunits herror hcount
  omega

theorem pass_ofCount_of_lt (hb : b.IsWide) (hn : b.fractionCount < n) (h : b.ofCount n < b.infinity)
    {start : Nat} (hstart : b.units start = n * b.scale) : b.pass (b.ofCount n) = b.ofCount n := by
  by_cases hscaled : b.scaledCode (b.ofCount n) < b.infinity
  · have hquotient := isNearest_ofCount hb h
    rw [← hstart] at hquotient
    have hnearest := hquotient.of_product placeUnits_pos (isNearest_scaledCode hb hscaled)
      fun shift hcode => units_scaledCode_of_first hb hcode hscaled
    rw [← countOf_mul_scale (le_units_scaledCode hb hn h hscaled)] at hnearest
    have hcode := unboundedNearest_eq_of_isNearest hb.fractionBits_pos placeUnits_pos hnearest
    have hmin := nearest_eq_min b (b.countOf (b.ofCount n)) placeUnits
    rw [hcode, Nat.min_eq_right (Nat.le_of_lt h)] at hmin
    rw [pass_of_lt hscaled]
    exact hmin
  · exact pass_of_not_lt hscaled

theorem settlesWithin_pass (hb : b.IsWide) (code : Nat) : b.SettlesWithin 3 (b.pass code) := by
  by_cases h : b.scaledCode code < b.infinity
  · have hfinite := ofCount_lt_infinity hb (countOf_mul_scale_le hb h)
    rw [pass_of_lt h]
    rcases Nat.lt_or_ge (b.countOf code) (4096 * placeUnits) with hsmall | hge
    · exact .stays (pass_ofCount_of_countOf_eq (countOf_ofCount_of_lt hb hsmall hfinite))
    rcases Nat.lt_or_ge b.fractionCount (b.countOf code) with hlarge | hle
    · refine .stays (pass_ofCount_of_lt hb hlarge hfinite (countOf_mul_scale ?_).symm)
      have hcount : b.countOf code * (2 * b.scale) ≤ 2 * b.units (b.scaledCode code) + b.scale :=
        Nat.div_mul_le_self _ _
      have hmul := Nat.mul_le_mul_right (2 * b.scale) (Nat.succ_le_of_lt hlarge)
      rw [Nat.succ_mul, Nat.mul_left_comm] at hmul
      omega
    · exact settlesWithin_ofCount_of_le hb hge hle
  · refine .stays ?_
    rw [pass_of_not_lt h, pass_of_not_lt h]

theorem pass_lt_infinity (hb : b.IsWide) (h : code < b.infinity) : b.pass code < b.infinity := by
  by_cases hscaled : b.scaledCode code < b.infinity
  · rw [pass_of_lt hscaled]
    exact ofCount_lt_infinity hb (countOf_mul_scale_le hb hscaled)
  · rw [pass_of_not_lt hscaled]
    exact h

end Binary

namespace Number

open Binary

/-- The code that rounding leaves. -/
def roundedCode (code : Nat) : Nat :=
  settle 8 (roundOnce code)

theorem pass_roundedCode (code : Nat) : double.pass (roundedCode code) = roundedCode code :=
  pass_settle (settlesWithin_pass isWide_double code) (by decide)

theorem roundedCode_of_pass_eq {code : Nat} (h : double.pass code = code) :
    roundedCode code = code := by
  rw [roundedCode, roundOnce_eq_pass, h, settle_of_pass_eq 8 h]

theorem settle_lt_infinity (passes : Nat) {code : Nat} (h : code < double.infinity) :
    settle passes code < double.infinity := by
  induction passes generalizing code with
  | zero => exact h
  | succ passes ih =>
      rw [settle]
      split
      · exact h
      · exact ih (pass_lt_infinity isWide_double h)

theorem roundedCode_lt_infinity {code : Nat} (h : code < double.infinity) :
    roundedCode code < double.infinity :=
  settle_lt_infinity 8 (pass_lt_infinity isWide_double h)

theorem toTwelvePlaces_of_isFinite {x : Float} (h : IsFinite x) :
    toTwelvePlaces x =
      ofMagnitude (roundedCode (magnitude x) ≠ 0 && isNegative x) (roundedCode (magnitude x)) :=
  if_pos h

/-- Rounding a number that was rounded changes nothing. -/
theorem toTwelvePlaces_toTwelvePlaces (x : Float) :
    toTwelvePlaces (toTwelvePlaces x) = toTwelvePlaces x := by
  by_cases hx : IsFinite x
  · have hcode := roundedCode_lt_infinity hx
    have hstays := roundedCode_of_pass_eq (pass_roundedCode (magnitude x))
    rw [toTwelvePlaces_of_isFinite hx, toTwelvePlaces_of_isFinite (isFinite_ofMagnitude _ hcode),
      magnitude_ofMagnitude _ hcode, isNegative_ofMagnitude _ hcode, hstays]
    cases decide (roundedCode (magnitude x) ≠ 0) <;> rfl
  · have hstays : toTwelvePlaces x = x := if_neg hx
    rw [hstays, hstays]

end Number

end TalkingCalculator
