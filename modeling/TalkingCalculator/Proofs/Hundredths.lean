import TalkingCalculator.Proofs.BitPatterns

namespace TalkingCalculator.Number

open Float.Model Float.Model.UnpackedFloat

section Rounding

variable {m k : Nat} {e : Int}

theorem totalExponent_le (hm : m < 2 ^ k) : totalExponent m e ≤ max (k + e) (1 + e) := by
  have hlog : m.log2 + 1 ≤ max k 1 := by
    by_cases hzero : m = 0
    · rw [hzero, Nat.log2_zero]
      exact Nat.le_max_right _ _
    · have := (Nat.log2_lt hzero).2 hm
      omega
  rw [totalExponent]
  omega

theorem targetExponent_le {t : Int} : Format.binary64.targetExponent t ≤ max (t - 53) (-1074) :=
  Int.le_refl _

theorem mantissa_shiftRight (em : ExtendedMantissa) (n : Nat) :
    (em >>> n).mantissa = em.mantissa / 2 ^ n := by
  induction n with
  | zero => exact (Nat.div_one _).symm
  | succ n ih =>
      change (em >>> n).mantissa / 2 = _
      rw [ih, Nat.div_div_eq_div_mul, Nat.pow_succ]

theorem roundedMantissa_le (em : ExtendedMantissa) : em.roundedMantissa ≤ em.mantissa + 1 := by
  rw [ExtendedMantissa.roundedMantissa]
  cases em.accuracy with
  | exact => exact Nat.le_succ _
  | inexact relation =>
      cases relation with
      | lt => exact Nat.le_succ _
      | eq =>
          change em.mantissa + em.mantissa % 2 ≤ _
          omega
      | gt => exact Nat.le_refl _

theorem mantissa_ofMantissaAndAccuracy (m : Nat) (accuracy : Accuracy) :
    (ExtendedMantissa.ofMantissaAndAccuracy m accuracy).mantissa = m := by
  cases accuracy with
  | exact => rfl
  | inexact relation => cases relation <;> rfl

theorem shiftToTargetExponent_snd (m : Nat) (e : Int) (accuracy : Accuracy) :
    (shiftToTargetExponent .binary64 m e accuracy).2 =
      max e (Format.binary64.targetExponent (totalExponent m e)) := by
  change e + ((Format.binary64.targetExponent (totalExponent m e) - e).toNat : Int) = _
  omega

theorem mantissa_shiftToTargetExponent (m : Nat) (e : Int) (accuracy : Accuracy) :
    (shiftToTargetExponent .binary64 m e accuracy).1.mantissa =
      m / 2 ^ (Format.binary64.targetExponent (totalExponent m e) - e).toNat := by
  have hshift := mantissa_shiftRight (.ofMantissaAndAccuracy m accuracy)
    (Format.binary64.targetExponent (totalExponent m e) - e).toNat
  rwa [mantissa_ofMantissaAndAccuracy] at hshift

theorem div_two_pow_lt (hm : m < 2 ^ k) (n : Nat) : m / 2 ^ n < 2 ^ (k - n) := by
  refine Nat.div_lt_of_lt_mul (hm.trans_le ?_)
  rw [← Nat.pow_add]
  exact Nat.pow_le_pow_right (by decide) (by omega)

/-- What a mantissa and an exponent are rounded to, whatever the sign. -/
def roundedParts (m : Nat) (e : Int) (accuracy : Accuracy) : Nat × Int :=
  let first := shiftToTargetExponent .binary64 m e accuracy
  let second := shiftToTargetExponent .binary64 first.1.roundedMantissa first.2 .exact
  (second.1.mantissa, second.2)

theorem roundWithAccuracy_eq (s : Sign) (m : Nat) (e : Int) (accuracy : Accuracy) :
    roundWithAccuracy .binary64 s m e accuracy =
      if h : (roundedParts m e accuracy).1 = 0 then .zero s
      else .finite s (roundedParts m e accuracy).1 (roundedParts m e accuracy).2
        (Nat.pos_of_ne_zero h) :=
  rfl

theorem roundedParts_snd_lt (hm : m < 2 ^ k) (hk : k + e ≤ 1023) (he : e ≤ 970)
    (accuracy : Accuracy) :
    (roundedParts m e accuracy).2 < 972 := by
  have htotal : totalExponent m e ≤ max (k + e) (1 + e) := totalExponent_le hm
  have htarget : Format.binary64.targetExponent (totalExponent m e) ≤ 970 := by
    have := targetExponent_le (t := totalExponent m e)
    omega
  generalize hn : (Format.binary64.targetExponent (totalExponent m e) - e).toNat = n
  have hfirst : (shiftToTargetExponent .binary64 m e accuracy).1.mantissa < 2 ^ (k - n) := by
    rw [mantissa_shiftToTargetExponent, hn]
    exact div_two_pow_lt hm n
  have hexponent : (shiftToTargetExponent .binary64 m e accuracy).2 = e + n := by
    rw [shiftToTargetExponent_snd]
    omega
  have hrounded : (shiftToTargetExponent .binary64 m e accuracy).1.roundedMantissa <
      2 ^ (k - n + 1) := by
    have := roundedMantissa_le (shiftToTargetExponent .binary64 m e accuracy).1
    rw [Nat.pow_succ]
    omega
  have htotal' := totalExponent_le (e := (shiftToTargetExponent .binary64 m e accuracy).2) hrounded
  have htarget' := targetExponent_le
    (t := totalExponent (shiftToTargetExponent .binary64 m e accuracy).1.roundedMantissa
      (shiftToTargetExponent .binary64 m e accuracy).2)
  rw [hexponent] at htotal' htarget'
  rw [roundedParts, shiftToTargetExponent_snd, hexponent]
  omega

theorem exists_pattern_of_finite (he : e < 972) :
    ∃ exponent mantissa, exponent.toNat < 2047 ∧
      ∀ (s : Sign) (hm : 0 < m),
        UnpackedFloat.pack .binary64 (.finite s m e hm) = pattern s exponent mantissa := by
  have hpack : ∀ (s : Sign) (hm : 0 < m), UnpackedFloat.pack .binary64 (.finite s m e hm) =
      if 2 ^ 11 ≤ (e + 1023 + 52).toNat + 1 then packedInfinity .binary64 s
      else if m.log2 + 1 = 53 then
        pattern s (BitVec.ofNat _ (e + 1023 + 52).toNat) (BitVec.ofNat _ m)
      else pattern s 0#_ (BitVec.ofNat _ m) := fun _ _ => rfl
  have hsmall : ¬ 2 ^ 11 ≤ (e + 1023 + 52).toNat + 1 := by omega
  by_cases hnormal : m.log2 + 1 = 53
  · refine ⟨BitVec.ofNat _ (e + 1023 + 52).toNat, BitVec.ofNat _ m, ?_, fun s hm => ?_⟩
    · rw [BitVec.toNat_ofNat]
      omega
    · rw [hpack, if_neg hsmall, if_pos hnormal]
  · refine ⟨0#_, BitVec.ofNat _ m, by decide, fun s hm => ?_⟩
    rw [hpack, if_neg hsmall, if_neg hnormal]

theorem exists_pattern_of_round (hm : m < 2 ^ k) (hk : k + e ≤ 1023) (he : e ≤ 970)
    (accuracy : Accuracy) :
    ∃ exponent mantissa, exponent.toNat < 2047 ∧
      ∀ s, UnpackedFloat.pack .binary64 (roundWithAccuracy .binary64 s m e accuracy) =
        pattern s exponent mantissa := by
  simp only [roundWithAccuracy_eq]
  by_cases hzero : (roundedParts m e accuracy).1 = 0
  · refine ⟨0#_, 0#_, by decide, fun s => ?_⟩
    rw [dif_pos hzero]
    rfl
  · obtain ⟨exponent, mantissa, hlt, hpack⟩ :=
      exists_pattern_of_finite (m := (roundedParts m e accuracy).1)
      (roundedParts_snd_lt hm hk he accuracy)
    refine ⟨exponent, mantissa, hlt, fun s => ?_⟩
    rw [dif_neg hzero, hpack]

end Rounding

theorem unpack_bits {code : Nat} (h : code < Binary.double.infinity) :
    (∀ negative, UnpackedFloat.unpack .binary64 (bits negative code).toBitVec =
      .zero (patternSign negative)) ∨
      ∃ m e, ∃ hm : 0 < m, m < 2 ^ 53 ∧ e ≤ 971 ∧
        ∀ negative, UnpackedFloat.unpack .binary64 (bits negative code).toBitVec =
          .finite (patternSign negative) m e hm := by
  have hinfinity : Binary.double.infinity = 2047 * 2 ^ 52 := rfl
  have hfield : (BitVec.ofNat 11 (code / 2 ^ 52)).toNat < 2047 := by
    rw [BitVec.toNat_ofNat]
    omega
  simp only [toBitVec_bits _ (lt_signWeight h)]
  generalize BitVec.ofNat 11 (code / 2 ^ 52) = exponent at hfield
  generalize BitVec.ofNat 52 (code % 2 ^ 52) = mantissa
  have hones : exponent ≠ -1#11 := by
    rintro rfl
    exact absurd hfield (by decide)
  simp only [UnpackedFloat.unpack, unpackSign_packComponents, unpackExponent_packComponents,
    unpackMantissa_packComponents, Sign.ofBitVec_toBitVec, if_neg hones]
  by_cases hsubnormal : exponent = 0#11
  · by_cases hzero : mantissa = 0#52
    · left
      intro negative
      rw [if_pos hsubnormal, dif_pos hzero]
    · right
      have hpos : 0 < mantissa.toNat := by
        simpa [BitVec.toNat_pos, BitVec.pos_iff_ne_zero] using hzero
      have hle : (exponent.toNat : Int) - 1075 + 1 ≤ 971 := by
        rw [hsubnormal]
        decide
      refine ⟨mantissa.toNat, _, hpos, by omega, hle, fun negative => ?_⟩
      rw [if_pos hsubnormal, dif_neg hzero]
      rfl
  · right
    have hpos : 0 < (1#1 ++ mantissa).toNat := by
      rw [BitVec.toNat_append, ← Nat.shiftLeft_add_eq_or_of_lt mantissa.isLt, Nat.shiftLeft_eq]
      exact Nat.add_pos_left (by decide) _
    refine ⟨(1#1 ++ mantissa).toNat, exponent.toNat - 1075, hpos, (1#1 ++ mantissa).isLt, by omega,
      fun negative => ?_⟩
    rw [if_neg hsubnormal]
    rfl

theorem ofMagnitude_of_pack {u : UnpackedFloat} {negative : Bool} {exponent : BitVec 11}
    {mantissa : BitVec 52} (h : exponent.toNat < 2047)
    (hpack : UnpackedFloat.pack .binary64 u = pattern (patternSign negative) exponent mantissa) :
    exponent.toNat * 2 ^ 52 + mantissa.toNat < Binary.double.infinity ∧
      Float.ofModel (Float.Model.pack u) =
        ofMagnitude negative (exponent.toNat * 2 ^ 52 + mantissa.toNat) := by
  have hinfinity : Binary.double.infinity = 2047 * 2 ^ 52 := rfl
  have hlt : exponent.toNat * 2 ^ 52 + mantissa.toNat < Binary.double.infinity := by omega
  refine ⟨hlt, ?_⟩
  have hexponent : BitVec.ofNat 11 ((exponent.toNat * 2 ^ 52 + mantissa.toNat) / 2 ^ 52) =
      exponent := by
    apply BitVec.eq_of_toNat_eq
    rw [BitVec.toNat_ofNat]
    omega
  have hmantissa : BitVec.ofNat 52 ((exponent.toNat * 2 ^ 52 + mantissa.toNat) % 2 ^ 52) =
      mantissa := by
    apply BitVec.eq_of_toNat_eq
    rw [BitVec.toNat_ofNat]
    omega
  have hbits := toBitVec_bits negative (lt_signWeight hlt)
  rw [hexponent, hmantissa, ← hpack, ← pack_unpack_bits negative hlt] at hbits
  have hmodel : Float.Model.pack u = Float.Model.pack (UnpackedFloat.unpack .binary64
      (bits negative (exponent.toNat * 2 ^ 52 + mantissa.toNat)).toBitVec) := by
    simp only [Float.Model.pack, hbits]
  rw [hmodel]
  rfl

theorem hundred_eq : (100 : Float) = ofMagnitude false 0x4059000000000000 := by
  decide +kernel

theorem unpack_hundred :
    UnpackedFloat.unpack .binary64 (bits false 0x4059000000000000).toBitVec =
      .finite .positive 7036874417766400 (-46) (by decide) :=
  rfl

theorem divCore_hundred {m : Nat} {e : Int} (hm : m < 2 ^ 53) (he : e ≤ 971) :
    ∃ quotient exponent accuracy, ∃ k : Nat,
      divCore .binary64 m e 7036874417766400 (-46) = (quotient, exponent, accuracy) ∧
      quotient < 2 ^ k ∧ k + exponent ≤ 1023 ∧ exponent ≤ 970 := by
  have hhundred : totalExponent 7036874417766400 (-46) = 7 := by decide
  have htotal : totalExponent m e ≤ max (53 + e) (1 + e) := totalExponent_le hm
  have htarget := targetExponent_le (t := totalExponent m e - 7)
  generalize hexponent : min (e - -46) (Format.binary64.targetExponent (totalExponent m e - 7)) =
    exponent
  generalize hshift : (e - -46 - exponent).toNat = shift
  refine ⟨(m <<< shift) / 7036874417766400, exponent,
    accuracyOfFraction (m <<< shift % 7036874417766400) 7036874417766400, shift + 1, ?_, ?_, by
      omega, by omega⟩
  · rw [divCore, hhundred, hexponent, hshift]
  · refine Nat.div_lt_of_lt_mul ?_
    rw [Nat.shiftLeft_eq, Nat.pow_succ]
    have := Nat.mul_lt_mul_of_pos_right hm (Nat.two_pow_pos shift)
    omega

theorem exists_hundredth {code : Nat} (h : code < Binary.double.infinity) :
    ∃ quotient, quotient < Binary.double.infinity ∧
      ∀ negative, ofMagnitude negative code / 100 = ofMagnitude negative quotient := by
  have hdiv : ∀ negative, ofMagnitude negative code / 100 = Float.ofModel (Float.Model.pack
      (UnpackedFloat.div .binary64 (UnpackedFloat.unpack .binary64 (bits negative code).toBitVec)
        (.finite .positive 7036874417766400 (-46) (by decide)))) := by
    intro negative
    rw [← unpack_hundred, ← toBits_ofMagnitude negative h, ← toBits_ofMagnitude false (by decide),
      ← hundred_eq]
    rfl
  have hsign : ∀ negative, patternSign negative / .positive = patternSign negative := by
    intro negative
    cases negative <;> rfl
  -- The quotient is rounded without regard to its sign.
  have hquotient : ∃ exponent mantissa, exponent.toNat < 2047 ∧
      ∀ negative, UnpackedFloat.pack .binary64
      (UnpackedFloat.div .binary64 (UnpackedFloat.unpack .binary64 (bits negative code).toBitVec)
        (.finite .positive 7036874417766400 (-46) (by decide))) =
          pattern (patternSign negative) exponent mantissa := by
    rcases unpack_bits h with hzero | ⟨m, e, hm, hlt, hle, hunpack⟩
    · refine ⟨0#11, 0#52, by decide, fun negative => ?_⟩
      rw [hzero, UnpackedFloat.div, hsign]
      rfl
    · obtain ⟨quotient, exponent, accuracy, k, hcore, hquotient, hk, hexponent⟩ :=
        divCore_hundred hlt hle
      obtain ⟨field, mantissa, hfield, hpack⟩ :=
        exists_pattern_of_round hquotient hk hexponent accuracy
      refine ⟨field, mantissa, hfield, fun negative => ?_⟩
      rw [hunpack, UnpackedFloat.div, hcore, hsign]
      exact hpack _
  obtain ⟨exponent, mantissa, hlt, hpack⟩ := hquotient
  refine ⟨exponent.toNat * 2 ^ 52 + mantissa.toNat, (ofMagnitude_of_pack hlt (hpack false)).1,
    fun negative => ?_⟩
  rw [hdiv]
  exact (ofMagnitude_of_pack hlt (hpack negative)).2

end TalkingCalculator.Number
