import TalkingCalculator.Number.Rounding
import TalkingCalculator.Proofs.NearestCode

namespace TalkingCalculator

open Number

namespace Binary

/-- A format with the usual precision, in which the twelfth place and `2 ^ 52` are far from the ends
of the exponents. -/
structure IsWide (b : Binary) : Prop where
  fractionBits_eq : b.fractionBits = 52
  le_depth : 41 ≤ b.depth
  depth_lt : b.depth + 2 < b.fieldCount

theorem isWide_double : double.IsWide :=
  ⟨rfl, by decide, by decide⟩

variable {b : Binary}

theorem IsWide.fractionBits_pos (hb : b.IsWide) : 0 < b.fractionBits := by
  rw [hb.fractionBits_eq]
  decide

theorem IsWide.fractionCount_eq (hb : b.IsWide) : b.fractionCount = 2 ^ 52 := by
  change 2 ^ b.fractionBits = 2 ^ 52
  rw [hb.fractionBits_eq]

theorem scale_eq_two_pow (b : Binary) : b.scale = 2 ^ b.depth :=
  rfl

/-- The code of a magnitude times the number of units of the twelfth place. -/
def scaledCode (b : Binary) (code : Nat) : Nat :=
  b.nearest (b.units code * placeUnits) b.scale

/-- How many units of the twelfth place a pass counts. -/
def countOf (b : Binary) (code : Nat) : Nat :=
  roundHalfUp (b.units (b.scaledCode code)) b.scale

/-- The code of a whole number of units of the twelfth place. -/
def ofCount (b : Binary) (n : Nat) : Nat :=
  b.nearest n placeUnits

def pass (b : Binary) (code : Nat) : Nat :=
  if b.scaledCode code < b.infinity then b.ofCount (b.countOf code) else code

theorem pass_of_lt {code : Nat} (h : b.scaledCode code < b.infinity) :
    b.pass code = b.ofCount (b.countOf code) :=
  if_pos h

theorem pass_of_not_lt {code : Nat} (h : ¬ b.scaledCode code < b.infinity) : b.pass code = code :=
  if_neg h

theorem pass_ofCount_of_countOf_eq {n : Nat}
    (h : b.scaledCode (b.ofCount n) < b.infinity → b.countOf (b.ofCount n) = n) :
    b.pass (b.ofCount n) = b.ofCount n := by
  by_cases hscaled : b.scaledCode (b.ofCount n) < b.infinity
  · rw [pass_of_lt hscaled, h hscaled]
  · exact pass_of_not_lt hscaled

/-- `b.SettlesWithin passes code` says that a code is reached that stays, after at most the given
number of passes. -/
inductive SettlesWithin (b : Binary) : Nat → Nat → Prop
  | stays {passes code : Nat} (h : b.pass code = code) : SettlesWithin b passes code
  | pass {passes code : Nat} (h : SettlesWithin b passes (b.pass code)) : SettlesWithin b
      (passes + 1) code

theorem placeUnits_pos : 0 < placeUnits := by
  decide

section Errors

theorem isNearest_ofCount (hb : b.IsWide) {n : Nat} (h : b.ofCount n < b.infinity) :
    b.IsNearest (n * b.scale) placeUnits (b.ofCount n) :=
  isNearest_of_nearest_lt hb.fractionBits_pos placeUnits_pos h

theorem isNearest_scaledCode (hb : b.IsWide) {code : Nat} (h : b.scaledCode code < b.infinity) :
    b.IsNearest (b.units code * placeUnits) 1 (b.scaledCode code) := by
  have hself :=
    isNearest_unboundedNearest hb.fractionBits_pos (b.units code * placeUnits) Nat.one_pos
  have hscaled := isNearest_of_nearest_lt hb.fractionBits_pos b.scale_pos h
  have hmul := hself.mul_left b.scale_pos
  rw [Nat.mul_comm b.scale, Nat.mul_one] at hmul
  have hcode : b.scaledCode code = b.unboundedNearest (b.units code * placeUnits) 1 :=
    hscaled.unique b.scale_pos hmul
  rw [hcode]
  exact hself

theorem unboundedNearest_ofCount (hb : b.IsWide) {n : Nat} (h : b.ofCount n < b.infinity) :
    b.unboundedNearest (n * b.scale) placeUnits = b.ofCount n :=
  unboundedNearest_eq_of_isNearest hb.fractionBits_pos placeUnits_pos (isNearest_ofCount hb h)

theorem unboundedNearest_scaledCode (hb : b.IsWide) {code : Nat}
    (h : b.scaledCode code < b.infinity) :
    b.unboundedNearest (b.units code * placeUnits) 1 = b.scaledCode code :=
  unboundedNearest_eq_of_isNearest hb.fractionBits_pos Nat.one_pos (isNearest_scaledCode hb h)

theorem ofCount_error (hb : b.IsWide) {n : Nat} (shift : Nat) (h : b.ofCount n < b.infinity)
    (hlt : n * b.scale < 2 * b.fractionCount * (placeUnits * 2 ^ shift)) :
    2 * (b.units (b.ofCount n) * placeUnits) ≤ 2 * (n * b.scale) + placeUnits * 2 ^ shift ∧
      2 * (n * b.scale) ≤ 2 * (b.units (b.ofCount n) * placeUnits) + placeUnits * 2 ^ shift := by
  have herror := unboundedNearest_error placeUnits_pos hlt
  rwa [unboundedNearest_ofCount hb h] at herror

theorem scaledCode_error (hb : b.IsWide) {code : Nat} (shift : Nat)
    (h : b.scaledCode code < b.infinity)
    (hlt : b.units code * placeUnits < 2 * b.fractionCount * 2 ^ shift) :
    2 * b.units (b.scaledCode code) ≤ 2 * (b.units code * placeUnits) + 2 ^ shift ∧
      2 * (b.units code * placeUnits) ≤ 2 * b.units (b.scaledCode code) + 2 ^ shift := by
  have herror := unboundedNearest_error (b := b) Nat.one_pos (by rwa [Nat.one_mul])
  rw [unboundedNearest_scaledCode hb h] at herror
  simpa using herror

end Errors

section Finite

theorem units_eq_fractionCount_mul_scale (b : Binary) :
    b.units (b.fractionCount + b.depth * b.fractionCount) = b.fractionCount * b.scale :=
  units_add_mul ⟨by omega, .inr (Nat.le_refl _)⟩

theorem fractionCount_mul_scale_lt (hb : b.IsWide) :
    b.fractionCount * b.scale < b.units b.infinity := by
  have hdepth := hb.depth_lt
  have hcode : b.fractionCount + b.depth * b.fractionCount < b.infinity := by
    rw [Nat.add_comm, ← Nat.succ_mul]
    exact Nat.mul_lt_mul_of_pos_right (by omega) b.fractionCount_pos
  rw [← units_eq_fractionCount_mul_scale]
  exact units_lt_units hcode

theorem ofCount_lt_infinity (hb : b.IsWide) {n : Nat} (h : n * b.scale ≤ 2 * b.units b.infinity) :
    b.ofCount n < b.infinity := by
  have hdepth := hb.depth_lt
  have hle := hb.le_depth
  obtain ⟨shift, hshift⟩ : ∃ shift, b.fieldCount - 1 = 1 + (shift + 38) :=
    ⟨b.fieldCount - 40, by omega⟩
  have hinfinity : b.infinity = b.fractionCount + (shift + 38) * b.fractionCount := by
    rw [infinity, hshift, Nat.add_mul, Nat.one_mul]
  have hpos := b.fractionCount_pos
  have hnum : n * b.scale < 2 * b.fractionCount * (placeUnits * 2 ^ shift) := by
    have hmul : 2 ^ (shift + 38) < placeUnits * 2 ^ shift := by
      rw [Nat.pow_add, Nat.mul_comm]
      exact Nat.mul_lt_mul_of_pos_right (by decide) (Nat.two_pow_pos shift)
    rw [hinfinity, units_add_mul ⟨by omega, .inr (Nat.le_refl _)⟩, ← Nat.mul_assoc] at h
    exact Nat.lt_of_le_of_lt h (Nat.mul_lt_mul_of_pos_left hmul (by omega))
  have hcode := unboundedNearest_le placeUnits_pos hnum
  have hmin := nearest_eq_min b n placeUnits
  rw [← ofCount] at hmin
  rw [Nat.add_mul] at hinfinity
  omega

theorem countOf_mul_scale_le (hb : b.IsWide) {code : Nat} (h : b.scaledCode code < b.infinity) :
    b.countOf code * b.scale ≤ 2 * b.units b.infinity := by
  have hunits := units_lt_units (b := b) h
  have hlimit := fractionCount_mul_scale_lt hb
  have hscale := Nat.le_mul_of_pos_left b.scale b.fractionCount_pos
  have hcount : b.countOf code * (2 * b.scale) ≤ 2 * b.units (b.scaledCode code) + b.scale :=
    Nat.div_mul_le_self _ _
  rw [Nat.mul_left_comm] at hcount
  omega

end Finite

theorem roundHalfUp_eq {value n unit : Nat} (hle : 2 * (n * unit) ≤ 2 * value + unit)
    (hlt : 2 * value + unit < 2 * (n * unit) + 2 * unit) : roundHalfUp value unit = n := by
  have hsucc : (n + 1) * (2 * unit) = n * (2 * unit) + 2 * unit := Nat.succ_mul n (2 * unit)
  have htwo : n * (2 * unit) = 2 * (n * unit) := Nat.mul_left_comm n 2 unit
  exact Nat.div_eq_of_lt_le (by omega) (by omega)

/-- Below `4096`, quotient and product are so exact that the next pass finds the same count. -/
theorem countOf_ofCount_of_lt (hb : b.IsWide) {n : Nat} (hn : n < 4096 * placeUnits)
    (h : b.ofCount n < b.infinity) (hscaled : b.scaledCode (b.ofCount n) < b.infinity) :
    b.countOf (b.ofCount n) = n := by
  obtain ⟨shift, hshift⟩ := Nat.exists_eq_add_of_le' hb.le_depth
  have hunits : placeUnits = 1000000000000 := rfl
  have hscale : b.scale = 2 ^ shift * 2 ^ 41 := by
    rw [scale_eq_two_pow, hshift, Nat.pow_add]
  have hpow : 2 ^ (shift + 40) = 2 ^ shift * 2 ^ 40 := Nat.pow_add 2 shift 40
  have hpos : 0 < 2 ^ shift := Nat.two_pow_pos shift
  have hcount : n * b.scale < 4096 * placeUnits * b.scale :=
    Nat.mul_lt_mul_of_pos_right hn b.scale_pos
  rw [hunits] at hcount
  obtain ⟨hquotient, hquotient'⟩ := ofCount_error hb shift h (by
    rw [hb.fractionCount_eq, hunits]
    omega)
  obtain ⟨hproduct, hproduct'⟩ := scaledCode_error hb (shift + 40) hscaled (by
    rw [hb.fractionCount_eq]
    rw [hunits] at hquotient ⊢
    omega)
  rw [hunits] at hquotient hquotient' hproduct hproduct'
  exact roundHalfUp_eq (by omega) (by omega)

end Binary

namespace Number

theorem roundOnce_eq_pass (code : Nat) : roundOnce code = Binary.double.pass code :=
  rfl

theorem settle_of_pass_eq {code : Nat} (passes : Nat) (h : Binary.double.pass code = code) :
    settle passes code = code := by
  cases passes with
  | zero => rfl
  | succ passes => exact if_pos h

theorem pass_settle {passes code : Nat} (h : Binary.double.SettlesWithin passes code) {limit : Nat}
    (hlimit : passes ≤ limit) : Binary.double.pass (settle limit code) = settle limit code := by
  induction h generalizing limit with
  | stays h =>
      rw [settle_of_pass_eq limit h]
      exact h
  | @pass passes code h ih =>
      obtain ⟨limit, rfl⟩ : ∃ k, limit = k + 1 := ⟨limit - 1, by omega⟩
      rw [settle, roundOnce_eq_pass]
      by_cases hstays : Binary.double.pass code = code
      · rw [if_pos hstays]
        exact hstays
      · rw [if_neg hstays]
        exact ih (by omega)

end Number

end TalkingCalculator
