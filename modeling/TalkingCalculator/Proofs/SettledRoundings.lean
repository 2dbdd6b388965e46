import Mathlib
import TalkingCalculator.Proofs.RoundingFixedPoints

namespace TalkingCalculator

open Number

namespace Binary

/-- The exact value of a code. -/
def toRat (b : Binary) (code : Nat) : ℚ :=
  b.units code / b.scale

theorem toRat_zero (b : Binary) : b.toRat 0 = 0 := by
  rw [toRat, units_zero, Nat.cast_zero, zero_div]

theorem SettlesWithin.exists_first {b : Binary} {limit code : Nat}
    (h : b.SettlesWithin limit code) :
    ∃ passes ≤ limit, (∀ earlier < passes, b.pass^[earlier + 1] code ≠ b.pass^[earlier] code) ∧
      b.pass^[passes + 1] code = b.pass^[passes] code := by
  induction h with
  | stays h => exact ⟨0, Nat.zero_le _, nofun, h⟩
  | @pass limit code h ih =>
      by_cases hstays : b.pass code = code
      · exact ⟨0, Nat.zero_le _, nofun, hstays⟩
      · obtain ⟨passes, hle, hchanges, hfixed⟩ := ih
        refine ⟨passes + 1, Nat.succ_le_succ hle, fun earlier hlt => ?_, hfixed⟩
        cases earlier with
        | zero => exact hstays
        | succ earlier => exact hchanges earlier (Nat.lt_of_succ_lt_succ hlt)

end Binary

namespace Number

/-- If a pass within the limit changes nothing, the first such pass ends the repetition. -/
theorem settle_eq_iterate {limit passes code : Nat} (hle : passes ≤ limit)
    (hchanges : ∀ earlier < passes, roundOnce^[earlier + 1] code ≠ roundOnce^[earlier] code)
    (hfixed : roundOnce^[passes + 1] code = roundOnce^[passes] code) :
    settle limit code = roundOnce^[passes] code := by
  induction passes generalizing limit code with
  | zero =>
      rw [Function.iterate_succ_apply, Function.iterate_zero_apply, Function.iterate_zero_apply,
        roundOnce_eq_pass] at hfixed
      exact settle_of_pass_eq limit hfixed
  | succ passes ih =>
      obtain ⟨limit, rfl⟩ : ∃ k, limit = k + 1 := ⟨limit - 1, by omega⟩
      have hnext := hchanges 0 (Nat.succ_pos passes)
      rw [Function.iterate_succ_apply, Function.iterate_zero_apply,
        Function.iterate_zero_apply] at hnext
      rw [settle, if_neg hnext, Function.iterate_succ_apply]
      refine ih (Nat.le_of_succ_le_succ hle) (fun earlier hlt => ?_) ?_
      · have hearlier := hchanges (earlier + 1) (Nat.succ_lt_succ hlt)
        rwa [Function.iterate_succ_apply _ (earlier + 1),
          Function.iterate_succ_apply _ earlier code] at hearlier
      · rwa [Function.iterate_succ_apply _ (passes + 1),
          Function.iterate_succ_apply _ passes code] at hfixed

/-- The exact value of a finite number. -/
def toRat (x : Float) : ℚ :=
  (if isNegative x then -1 else 1) * Binary.double.toRat (magnitude x)

variable {x : Float}

theorem toRat_ofMagnitude (negative : Bool) {code : Nat} (h : code < Binary.double.infinity) :
    toRat (ofMagnitude negative code) =
      (if negative then -1 else 1) * Binary.double.toRat code := by
  rw [toRat, isNegative_ofMagnitude negative h, magnitude_ofMagnitude negative h]

theorem neg_eq_ofMagnitude (h : IsFinite x) : -x = ofMagnitude (!isNegative x) (magnitude x) := by
  rw [← neg_ofMagnitude (isNegative x) h, ofMagnitude_magnitude]

theorem toTwelvePlaces_neg (h : IsFinite x) :
    toTwelvePlaces (-x) =
      ofMagnitude (roundedCode (magnitude x) ≠ 0 && !isNegative x) (roundedCode (magnitude x)) := by
  rw [neg_eq_ofMagnitude h, toTwelvePlaces_of_isFinite (isFinite_ofMagnitude _ h),
    magnitude_ofMagnitude _ h, isNegative_ofMagnitude _ h]

theorem toRat_toTwelvePlaces_neg (h : IsFinite x) :
    toRat (toTwelvePlaces (-x)) = -toRat (toTwelvePlaces x) := by
  have hcode := roundedCode_lt_infinity h
  rw [toTwelvePlaces_neg h, toTwelvePlaces_of_isFinite h, toRat_ofMagnitude _ hcode,
    toRat_ofMagnitude _ hcode]
  by_cases hzero : roundedCode (magnitude x) = 0
  · -- A zero has no sign, and is its own opposite.
    rw [hzero, Binary.toRat_zero, mul_zero, mul_zero, neg_zero]
  · cases isNegative x <;> simp [hzero]

/-- What the first pass and the given number of further ones leave of the magnitude of a number. -/
def afterPasses (x : Float) (passes : Nat) : Nat :=
  roundOnce^[passes] (roundOnce (magnitude x))

/-- The passes over a finite number end with one that changes nothing, after at most three others of
the eight that are allowed. What they leave is rounded to itself, and the opposite number is rounded
to the opposite. -/
theorem rounding_reaches_fixed_point (h : IsFinite x) :
    (∃ passes ≤ 3, (∀ earlier < passes, afterPasses x (earlier + 1) ≠ afterPasses x earlier) ∧
        afterPasses x (passes + 1) = afterPasses x passes ∧
        magnitude (toTwelvePlaces x) = afterPasses x passes) ∧
      toTwelvePlaces (toTwelvePlaces x) = toTwelvePlaces x ∧
      toRat (toTwelvePlaces (-x)) = -toRat (toTwelvePlaces x) := by
  refine ⟨?_, toTwelvePlaces_toTwelvePlaces x, toRat_toTwelvePlaces_neg h⟩
  obtain ⟨passes, hle, hchanges, hfixed⟩ :=
    (Binary.settlesWithin_pass Binary.isWide_double (magnitude x)).exists_first
  refine ⟨passes, hle, hchanges, hfixed, ?_⟩
  rw [toTwelvePlaces_of_isFinite h, magnitude_ofMagnitude _ (roundedCode_lt_infinity h)]
  exact settle_eq_iterate (hle.trans (by decide)) hchanges hfixed

theorem rounding_reaches_fixed_point_three :
    ∃ x, x = ofMagnitude true 0x40B181F3FD8A0FF0 ∧ IsFinite x ∧ afterPasses x 3 ≠ afterPasses x 2 ∧
      (∃ passes ≤ 3, (∀ earlier < passes, afterPasses x (earlier + 1) ≠ afterPasses x earlier) ∧
        afterPasses x (passes + 1) = afterPasses x passes ∧
        magnitude (toTwelvePlaces x) = afterPasses x passes) ∧
      toTwelvePlaces (toTwelvePlaces x) = toTwelvePlaces x ∧
      toRat (toTwelvePlaces (-x)) = -toRat (toTwelvePlaces x) := by
  have h : IsFinite (ofMagnitude true 0x40B181F3FD8A0FF0) := isFinite_ofMagnitude true (by decide)
  exact ⟨_, rfl, h, by decide +kernel, rounding_reaches_fixed_point h⟩

end Number

end TalkingCalculator
