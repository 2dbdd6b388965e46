import TalkingCalculator.Proofs.Hundredths
import TalkingCalculator.Proofs.RecalledOperands

namespace TalkingCalculator.Number

open Float.Model Float.Model.UnpackedFloat

section Patterns

theorem exists_pattern (b : BitVec Format.binary64.numBits) :
    ∃ s exponent mantissa, b = pattern s exponent mantissa :=
  ⟨_, _, _, (packComponents_unpackSign_unpackExponent_unpackMantissa b).symm⟩

theorem isUndefined_iff {x : Float} : IsUndefined x ↔ x.toBits.toBitVec = packedNaN .binary64 := by
  have hvalid : Format.binary64.Valid x.toBits.toBitVec := x.toModel.valid
  have hmagnitude : magnitude x = x.toBits.toBitVec.toNat % 2 ^ 63 := rfl
  have hinfinity : Binary.double.infinity = 2047 * 2 ^ 52 := rfl
  rw [IsUndefined, hmagnitude, hinfinity]
  obtain ⟨s, exponent, mantissa, hpattern⟩ := exists_pattern x.toBits.toBitVec
  rw [hpattern] at hvalid ⊢
  constructor
  · intro h
    rw [toNat_pattern] at h
    have hexponent : exponent.toNat = 2047 := by omega
    have hmantissa : 0 < mantissa.toNat := by omega
    refine hvalid.eq_packedNaN ?_ ?_
    · rw [unpackExponent_packComponents]
      exact BitVec.eq_of_toNat_eq hexponent
    · rw [unpackMantissa_packComponents]
      rintro rfl
      exact absurd hmantissa (by decide)
  · intro h
    rw [h]
    decide

theorem pack_ne_packedNaN {u : UnpackedFloat} (h : u ≠ .notANumber) :
    UnpackedFloat.pack .binary64 u ≠ packedNaN .binary64 := by
  cases u with
  | notANumber => exact absurd rfl h
  | infinity s => cases s <;> decide
  | zero s => cases s <;> decide
  | finite s m e hm =>
      by_cases he : e < 972
      · obtain ⟨exponent, mantissa, hlt, hpack⟩ := exists_pattern_of_finite (m := m) he
        rw [hpack]
        intro hbits
        have hexponent := congrArg unpackExponent hbits
        rw [unpackExponent_packComponents] at hexponent
        rw [hexponent] at hlt
        exact absurd hlt (by decide)
      · have hlarge : 2 ^ 11 ≤ (e + 1023 + 52).toNat + 1 := by omega
        have hpack : UnpackedFloat.pack .binary64 (.finite s m e hm) =
            if 2 ^ 11 ≤ (e + 1023 + 52).toNat + 1 then packedInfinity .binary64 s else _ := rfl
        rw [hpack, if_pos hlarge]
        cases s <;> decide

theorem isUndefined_pack_iff {u : UnpackedFloat} :
    IsUndefined (Float.ofModel (Float.Model.pack u)) ↔ u = .notANumber := by
  have hbits : (Float.ofModel (Float.Model.pack u)).toBits.toBitVec =
      UnpackedFloat.pack .binary64 u := rfl
  rw [isUndefined_iff, hbits]
  refine ⟨fun h => ?_, ?_⟩
  · by_contra hu
    exact pack_ne_packedNaN hu h
  · rintro rfl
    rfl

theorem isUndefined_iff_unpack {x : Float} : IsUndefined x ↔ x.toModel.unpack = .notANumber := by
  rw [isUndefined_iff, ← isNaN_iff]
  exact (isNaN_unpack_iff_of_valid x.toModel.valid).symm

end Patterns

section Sums

variable {u v : UnpackedFloat}

/-- Whether the parts are those of a zero or of another finite number. -/
def HasMantissa (u : UnpackedFloat) : Prop :=
  (∃ s, u = .zero s) ∨ ∃ s m e hm, u = .finite s m e hm

theorem roundWithAccuracy_ne_notANumber (s : Sign) (m : Nat) (e : Int) (accuracy : Accuracy) :
    roundWithAccuracy .binary64 s m e accuracy ≠ .notANumber := by
  rw [roundWithAccuracy_eq]
  split <;> simp

theorem normalize_ne_notANumber (m : Int) (e : Int) (s : Sign) :
    UnpackedFloat.normalize .binary64 m e s ≠ .notANumber := by
  unfold UnpackedFloat.normalize
  split
  · exact roundWithAccuracy_ne_notANumber _ _ _ _
  · simp
  · exact roundWithAccuracy_ne_notANumber _ _ _ _

theorem add_ne_notANumber (hu : u ≠ .notANumber) (hv : HasMantissa v) :
    UnpackedFloat.add .binary64 u v ≠ .notANumber := by
  rcases hv with ⟨t, rfl⟩ | ⟨t, n, f, hn, rfl⟩
  · cases u with
    | notANumber => exact absurd rfl hu
    | infinity s => simp [UnpackedFloat.add]
    | zero s =>
        rw [UnpackedFloat.add]
        split <;> simp
    | finite s m e hm => simp [UnpackedFloat.add]
  · cases u with
    | notANumber => exact absurd rfl hu
    | infinity s => simp [UnpackedFloat.add]
    | zero s => simp [UnpackedFloat.add]
    | finite s m e hm => exact normalize_ne_notANumber _ _ _

theorem apply_neg (s : Sign) (m : Int) : (-s).apply m = -s.apply m := by
  cases s with
  | positive => rfl
  | negative => exact (neg_neg m).symm

theorem sub_eq_add (u v : UnpackedFloat) :
    UnpackedFloat.sub .binary64 u v = UnpackedFloat.add .binary64 u v.neg := by
  cases u with
  | finite s m e hm =>
      cases v with
      | finite t n f hn =>
          rw [UnpackedFloat.sub, UnpackedFloat.neg, UnpackedFloat.add]
          simp only [apply_neg, Int.sub_eq_add_neg]
      | _ => rfl
  | _ => cases v <;> rfl

theorem HasMantissa.neg (h : HasMantissa v) : HasMantissa v.neg := by
  rcases h with ⟨s, rfl⟩ | ⟨s, m, e, hm, rfl⟩
  · exact .inl ⟨-s, rfl⟩
  · exact .inr ⟨-s, m, e, hm, rfl⟩

theorem sub_ne_notANumber (hu : u ≠ .notANumber) (hv : HasMantissa v) :
    UnpackedFloat.sub .binary64 u v ≠ .notANumber := by
  rw [sub_eq_add]
  exact add_ne_notANumber hu hv.neg

variable {x y : Float}

theorem hasMantissa_unpack (h : IsFinite x) : HasMantissa x.toModel.unpack := by
  have hunpack : x.toModel.unpack =
      UnpackedFloat.unpack .binary64 (bits (isNegative x) (magnitude x)).toBitVec := by
    rw [← toBits_ofMagnitude (isNegative x) h, ofMagnitude_magnitude]
    rfl
  rw [hunpack]
  rcases unpack_bits h with hzero | ⟨m, e, hm, -, -, hfinite⟩
  · exact .inl ⟨_, hzero _⟩
  · exact .inr ⟨_, m, e, hm, hfinite _⟩

theorem not_isUndefined_add (hx : ¬ IsUndefined x) (hy : IsFinite y) : ¬ IsUndefined (x + y) := by
  rw [isUndefined_iff_unpack] at hx
  exact isUndefined_pack_iff.not.2 (add_ne_notANumber hx (hasMantissa_unpack hy))

theorem not_isUndefined_sub (hx : ¬ IsUndefined x) (hy : IsFinite y) : ¬ IsUndefined (x - y) := by
  rw [isUndefined_iff_unpack] at hx
  exact isUndefined_pack_iff.not.2 (sub_ne_notANumber hx (hasMantissa_unpack hy))

theorem not_isUndefined_toTwelvePlaces (h : ¬ IsUndefined x) :
    ¬ IsUndefined (toTwelvePlaces x) := by
  by_cases hx : IsFinite x
  · exact not_isUndefined (isFinite_toTwelvePlaces_iff.2 hx)
  · rwa [toTwelvePlaces, if_neg hx]

end Sums

end TalkingCalculator.Number
