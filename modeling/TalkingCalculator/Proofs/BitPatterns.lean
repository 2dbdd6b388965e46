import Mathlib
import TalkingCalculator.Number.Basic

namespace TalkingCalculator.Number

open Float.Model Float.Model.UnpackedFloat

def patternSign (negative : Bool) : Sign :=
  if negative then .negative else .positive

abbrev pattern (s : Sign) (exponent : BitVec 11) (mantissa : BitVec 52) :
    BitVec Format.binary64.numBits :=
  packComponents .binary64 s exponent mantissa

theorem toNat_pattern (s : Sign) (exponent : BitVec 11) (mantissa : BitVec 52) :
    (pattern s exponent mantissa).toNat =
      (s.toBitVec.toNat * 2 ^ 11 + exponent.toNat) * 2 ^ 52 + mantissa.toNat := by
  rw [pattern, packComponents, BitVec.toNat_append, BitVec.toNat_append,
    ← Nat.shiftLeft_add_eq_or_of_lt mantissa.isLt, ← Nat.shiftLeft_add_eq_or_of_lt exponent.isLt,
    Nat.shiftLeft_eq, Nat.shiftLeft_eq]

theorem unpack_pattern_neg (s : Sign) (exponent : BitVec 11) (mantissa : BitVec 52) :
    (UnpackedFloat.unpack .binary64 (pattern s exponent mantissa)).neg =
      UnpackedFloat.unpack .binary64 (pattern (-s) exponent mantissa) := by
  simp only [UnpackedFloat.unpack, unpackSign_packComponents, unpackExponent_packComponents,
    unpackMantissa_packComponents, Sign.ofBitVec_toBitVec]
  split
  · split <;> rfl
  · split
    · split <;> rfl
    · rfl

def bits (negative : Bool) (code : Nat) : UInt64 :=
  UInt64.ofNat (if negative then code + Binary.double.signWeight else code)

theorem toNat_bits (negative : Bool) {code : Nat} (h : code < Binary.double.signWeight) :
    (bits negative code).toNat = if negative then code + Binary.double.signWeight else code := by
  have hweight : Binary.double.signWeight = 2 ^ 63 := rfl
  rw [bits, UInt64.toNat_ofNat']
  split <;> omega

theorem lt_signWeight {code : Nat} (h : code < Binary.double.infinity) :
    code < Binary.double.signWeight :=
  h.trans (by decide)

theorem toBitVec_bits (negative : Bool) {code : Nat} (h : code < Binary.double.signWeight) :
    (bits negative code).toBitVec =
      pattern (patternSign negative) (BitVec.ofNat 11 (code / 2 ^ 52))
        (BitVec.ofNat 52 (code % 2 ^ 52)) := by
  have hweight : Binary.double.signWeight = 2 ^ 63 := rfl
  apply BitVec.eq_of_toNat_eq
  rw [toNat_pattern]
  change (bits negative code).toNat = _
  rw [toNat_bits negative h, BitVec.toNat_ofNat, BitVec.toNat_ofNat, hweight]
  rw [hweight] at h
  cases negative with
  | false =>
      change code = (0 * 2 ^ 11 + _) * 2 ^ 52 + _
      omega
  | true =>
      change code + 2 ^ 63 = (1 * 2 ^ 11 + _) * 2 ^ 52 + _
      omega

theorem pack_unpack_bits (negative : Bool) {code : Nat} (h : code < Binary.double.infinity) :
    UnpackedFloat.pack .binary64 (UnpackedFloat.unpack .binary64 (bits negative code).toBitVec) =
      (bits negative code).toBitVec := by
  have hexponent : BitVec.ofNat 11 (code / 2 ^ 52) ≠ -1#11 := by
    intro hones
    have hinfinity : Binary.double.infinity = 2047 * 2 ^ 52 := rfl
    have hfield : (BitVec.ofNat 11 (code / 2 ^ 52)).toNat = 2047 := congrArg BitVec.toNat hones
    rw [BitVec.toNat_ofNat] at hfield
    omega
  have hnumber : @isNaNBits .binary64 (bits negative code).toBitVec = false := by
    rw [toBitVec_bits negative (lt_signWeight h), isNaNBits, unpackExponent_packComponents]
    exact decide_eq_false fun hbits => hexponent hbits.1
  rw [pack_unpack, hnumber]
  rfl

theorem toBits_ofMagnitude (negative : Bool) {code : Nat} (h : code < Binary.double.infinity) :
    (ofMagnitude negative code).toBits = bits negative code := by
  have hpattern := pack_unpack_bits negative h
  change UInt64.ofBitVec
    (UnpackedFloat.pack .binary64 (UnpackedFloat.unpack .binary64 (bits negative code).toBitVec)) =
      _
  rw [hpattern]

theorem magnitude_ofMagnitude (negative : Bool) {code : Nat} (h : code < Binary.double.infinity) :
    magnitude (ofMagnitude negative code) = code := by
  rw [magnitude, toBits_ofMagnitude negative h, toNat_bits negative (lt_signWeight h)]
  split
  · rw [Nat.add_mod_right, Nat.mod_eq_of_lt (lt_signWeight h)]
  · exact Nat.mod_eq_of_lt (lt_signWeight h)

theorem isNegative_ofMagnitude (negative : Bool) {code : Nat} (h : code < Binary.double.infinity) :
    isNegative (ofMagnitude negative code) = negative := by
  rw [isNegative, toBits_ofMagnitude negative h, toNat_bits negative (lt_signWeight h)]
  cases negative with
  | false => exact decide_eq_false (Nat.not_le.2 (lt_signWeight h))
  | true => exact decide_eq_true (Nat.le_add_left _ _)

theorem isFinite_ofMagnitude (negative : Bool) {code : Nat} (h : code < Binary.double.infinity) :
    IsFinite (ofMagnitude negative code) := by
  rw [IsFinite, magnitude_ofMagnitude negative h]
  exact h

theorem isFinite_zero : IsFinite zero :=
  isFinite_ofMagnitude false (by decide)

theorem neg_ofMagnitude (negative : Bool) {code : Nat} (h : code < Binary.double.infinity) :
    -ofMagnitude negative code = ofMagnitude (!negative) code := by
  have hsign : -patternSign negative = patternSign (!negative) := by cases negative <;> rfl
  have hneg : (UnpackedFloat.unpack .binary64 (bits negative code).toBitVec).neg =
      UnpackedFloat.unpack .binary64 (bits (!negative) code).toBitVec := by
    rw [toBitVec_bits negative (lt_signWeight h), toBitVec_bits (!negative) (lt_signWeight h),
      unpack_pattern_neg, hsign]
  change Float.ofModel
    (Float.Model.pack
      (UnpackedFloat.unpack .binary64 (ofMagnitude negative code).toBits.toBitVec).neg) = _
  rw [toBits_ofMagnitude negative h, hneg]
  rfl

theorem ofMagnitude_magnitude (x : Float) : ofMagnitude (isNegative x) (magnitude x) = x := by
  have hweight : Binary.double.signWeight = 2 ^ 63 := rfl
  have hlt := x.toBits.toNat_lt
  have hcode : (if isNegative x then magnitude x + Binary.double.signWeight else magnitude x) =
      x.toBits.toNat := by
    simp only [isNegative, magnitude, hweight, decide_eq_true_eq]
    split <;> omega
  rw [ofMagnitude, hcode, UInt64.ofNat_toNat, Float.ofBits_toBits]

end TalkingCalculator.Number
