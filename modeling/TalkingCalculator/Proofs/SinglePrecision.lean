import TalkingCalculator.Number.Single
import TalkingCalculator.Proofs.BitPatterns
import TalkingCalculator.Proofs.NearestCode

namespace TalkingCalculator

namespace Binary

variable {b : Binary}

theorem exists_units_eq_mul_two_pow {mantissa shift : Nat}
    (hmantissa : mantissa < 2 * b.fractionCount) (hshift : b.fractionBits ≤ shift) :
    ∃ code ≤ (shift + 2) * b.fractionCount, b.units code = mantissa * 2 ^ shift := by
  by_cases hzero : mantissa = 0
  · exact ⟨0, Nat.zero_le _, by rw [b.units_zero, hzero, Nat.zero_mul]⟩
  -- the mantissa is doubled until it fills the fraction, and the shift makes up for the rest
  have hfull : ∀ k, 2 ^ (b.fractionBits + k) = 2 ^ k * b.fractionCount := fun k => by
    rw [Nat.add_comm, Nat.pow_add]
    rfl
  have hlog : mantissa.log2 ≤ b.fractionBits :=
    Nat.le_of_lt_succ ((Nat.log2_lt hzero).2 (by rw [hfull 1]; exact hmantissa))
  obtain ⟨k, hk⟩ := Nat.exists_eq_add_of_le hlog
  obtain ⟨rest, rfl⟩ : ∃ rest, shift = k + rest := ⟨shift - k, by omega⟩
  have hpow : ∀ n, 2 ^ n * 2 ^ k = 2 ^ (n + k) := fun n => (Nat.pow_add 2 n k).symm
  have hlow : b.fractionCount ≤ mantissa * 2 ^ k := by
    have hle := Nat.mul_le_mul_right (2 ^ k) (Nat.log2_self_le hzero)
    rw [hpow, ← hk] at hle
    exact hle
  have hhigh : mantissa * 2 ^ k < 2 * b.fractionCount := by
    have hlt := Nat.mul_lt_mul_of_pos_right (Nat.lt_log2_self (n := mantissa)) (Nat.two_pow_pos k)
    rw [hpow, Nat.add_right_comm, ← hk, hfull 1] at hlt
    exact hlt
  refine ⟨mantissa * 2 ^ k + rest * b.fractionCount, ?_, ?_⟩
  · have hle := Nat.mul_le_mul_right b.fractionCount (Nat.le_add_left rest k)
    rw [Nat.add_mul]
    omega
  · rw [units_add_mul ⟨Nat.le_of_lt hhigh, .inr hlow⟩, Nat.mul_assoc, ← Nat.pow_add]

/-- One format refines another when it has finer steps and a wider range, both by so much that the
finite magnitudes of the other have all their digits in it. -/
structure Refines (wide b : Binary) : Prop where
  fraction_le : b.fractionBits ≤ wide.fractionBits
  depth_le : b.depth + wide.fractionBits ≤ wide.depth
  range_lt : b.fieldCount + (wide.depth - b.depth) + 1 < wide.fieldCount

theorem refines_double_single : double.Refines single :=
  ⟨by decide, by decide, by decide⟩

variable {wide : Binary}

theorem Refines.scale_eq (h : wide.Refines b) :
    wide.scale = 2 ^ (wide.depth - b.depth) * b.scale := by
  have hdepth := h.depth_le
  change 2 ^ wide.depth = _ * 2 ^ b.depth
  rw [← Nat.pow_add]
  congr 1
  omega

theorem Refines.exists_units_eq (h : wide.Refines b) {code : Nat} (hcode : code < b.infinity) :
    ∃ c < wide.infinity, wide.units c = 2 ^ (wide.depth - b.depth) * b.units code := by
  obtain ⟨mantissa, shift, rfl, hlt, hlow⟩ := b.exists_fits code
  have hmantissa : mantissa < 2 * wide.fractionCount :=
    Nat.lt_of_lt_of_le hlt (Nat.mul_le_mul_left 2 (Nat.pow_le_pow_right (by decide) h.fraction_le))
  have hshift : shift < b.fieldCount - 1 :=
    Nat.lt_of_mul_lt_mul_right (Nat.lt_of_le_of_lt (Nat.le_add_left _ mantissa) hcode)
  have hdepth := h.depth_le
  have hrange := h.range_lt
  have hfraction : wide.fractionBits ≤ shift + (wide.depth - b.depth) := by omega
  obtain ⟨c, hc, hunits⟩ := exists_units_eq_mul_two_pow hmantissa hfraction
  refine ⟨c, Nat.lt_of_le_of_lt hc (Nat.mul_lt_mul_of_pos_right (by omega) wide.fractionCount_pos),
    ?_⟩
  rw [hunits, units_add_mul ⟨Nat.le_of_lt hlt, hlow⟩, Nat.pow_add]
  ac_rfl

theorem Refines.nearest_units (h : wide.Refines b) (hb : 0 < b.fractionBits) {code : Nat}
    (hcode : code < b.infinity) :
    ∃ c < wide.infinity, wide.nearest (b.units code) b.scale = c ∧
      b.nearest (wide.units c) wide.scale = code := by
  obtain ⟨c, hc, hunits⟩ := h.exists_units_eq hcode
  have hpos := Nat.two_pow_pos (wide.depth - b.depth)
  refine ⟨c, hc, ?_, ?_⟩
  · rw [← nearest_mul_left (Nat.lt_of_lt_of_le hb h.fraction_le) b.scale_pos hpos, ← hunits,
      ← h.scale_eq, Binary.nearest_units (Nat.lt_of_lt_of_le hb h.fraction_le) (Nat.le_of_lt hc)]
  · rw [hunits, h.scale_eq, nearest_mul_left hb b.scale_pos hpos,
      Binary.nearest_units hb (Nat.le_of_lt hcode)]

end Binary

namespace Single

theorem ofMagnitude_magnitude (x : Float32) : ofMagnitude (isNegative x) (magnitude x) = x := by
  have hweight : Binary.single.signWeight = 2 ^ 31 := rfl
  have hlt := x.toBits.toNat_lt
  have hcode : (if isNegative x then magnitude x + Binary.single.signWeight else magnitude x) =
      x.toBits.toNat := by
    simp only [isNegative, magnitude, hweight, decide_eq_true_eq]
    split <;> omega
  rw [ofMagnitude, hcode, UInt32.ofNat_toNat, Float32.ofBits_toBits]

/-- A 32-bit number is finite when it is neither infinite nor undefined. -/
def IsFinite (x : Float32) : Prop :=
  magnitude x < Binary.single.infinity

instance (x : Float32) : Decidable (IsFinite x) :=
  inferInstanceAs (Decidable (_ < _))

theorem exists_widen_eq {x : Float32} (h : IsFinite x) :
    ∃ code < Binary.double.infinity, widen x = Number.ofMagnitude (isNegative x) code ∧
      Binary.single.nearest (Binary.double.units code) Binary.double.scale = magnitude x := by
  obtain ⟨code, hcode, hwide, hnarrow⟩ := Binary.refines_double_single.nearest_units (by decide) h
  refine ⟨code, hcode, ?_, hnarrow⟩
  rw [widen, if_neg (Nat.lt_asymm h), if_neg (Nat.ne_of_lt h), hwide]

theorem isFinite_widen {x : Float32} (h : IsFinite x) : Number.IsFinite (widen x) := by
  obtain ⟨code, hcode, hx, -⟩ := exists_widen_eq h
  rw [hx]
  exact Number.isFinite_ofMagnitude _ hcode

/-- A finite number, widened and narrowed again, is the same. -/
theorem narrow_widen {x : Float32} (h : IsFinite x) : narrow (widen x) = x := by
  obtain ⟨code, hcode, hx, hnarrow⟩ := exists_widen_eq h
  have hfinite := isFinite_widen h
  have hdefined : ¬ Number.IsUndefined (widen x) := Nat.lt_asymm hfinite
  rw [narrow, if_neg hdefined, if_neg (Classical.not_not.2 hfinite), hx,
    Number.magnitude_ofMagnitude _ hcode, Number.isNegative_ofMagnitude _ hcode, hnarrow,
    ofMagnitude_magnitude]

end Single

end TalkingCalculator
