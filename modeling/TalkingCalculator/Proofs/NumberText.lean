import TalkingCalculator.Proofs.BitPatterns
import TalkingCalculator.Proofs.Numeral
import TalkingCalculator.Proofs.ShortestDecimal

namespace TalkingCalculator

open Number

namespace Decimal

variable {b : Binary}

theorem isDigit_of_mem_digits {n : Nat} {c : Char} (hc : c ∈ digits n) : c.isDigit = true :=
  Nat.isDigit_of_mem_toDigits (by decide) (by decide) hc

theorem head?_digits_ne_zero {n : Nat} (hn : n ≠ 0) : (digits n).head? ≠ some '0' := by
  induction n using Nat.strongRecOn with
  | ind n ih =>
      rw [digits, Nat.toDigits_eq_if (by decide)]
      split
      · next hlt =>
          have hdigit : ∀ d < 10, d ≠ 0 → d.digitChar ≠ '0' := by decide
          simpa using hdigit n hlt hn
      · next hge =>
          rw [List.head?_append_of_ne_nil _ Nat.toDigits_ne_nil]
          exact ih (n / 10) (by omega) (by omega)

theorem coefficient_shortest_ne_zero (hb : b.IsRegular) {code : Nat} (hne : code ≠ 0)
    (h : code ≤ b.infinity) :
    (shortest b code).coefficient ≠ 0 := by
  intro hnone
  have hshortest := nearest_shortest hb h
  rw [nearest, if_pos hnone] at hshortest
  exact hne hshortest.symm

theorem ofDigits_zeros_append (k n : Nat) : ofDigits (List.replicate k '0' ++ digits n) = n := by
  rw [ofDigits, Nat.ofDigitChars_append, Nat.ofDigitChars_replicate_zero, Nat.mul_zero,
    Nat.ofDigitChars_ten_toDigits]

theorem exists_numeral_of_zeros (hb : b.IsRegular) {d : Decimal} (h : 0 ≤ d.exponent) :
    ∃ n : Numeral, n.text = digits d.coefficient ++ List.replicate d.exponent.toNat '0' ∧
      n.decimal.nearest b = d.nearest b := by
  have hdigits : ∀ c ∈ digits d.coefficient ++ List.replicate d.exponent.toNat '0',
      c.isDigit = true := by
    intro c hc
    rcases List.mem_append.1 hc with hc | hc
    · exact isDigit_of_mem_digits hc
    · obtain ⟨-, rfl⟩ := List.mem_replicate.1 hc
      rfl
  refine ⟨⟨⟨digits d.coefficient ++ List.replicate d.exponent.toNat '0', none,
    by simpa using hdigits, by simp⟩, none⟩, by simp [Numeral.text, Mantissa.text], ?_⟩
  have hcoefficient : ofDigits (digits d.coefficient ++ List.replicate d.exponent.toNat '0') =
      d.coefficient * 10 ^ d.exponent.toNat := by
    rw [ofDigits, Nat.ofDigitChars_append, Nat.ofDigitChars_replicate_zero,
      Nat.ofDigitChars_ten_toDigits, Nat.mul_comm]
  have hneg : (-d.exponent).toNat = 0 := by omega
  rw [nearest_eq hb, nearest_eq hb, hneg]
  simp [Numeral.decimal, hcoefficient]

theorem exists_numeral_of_point (b : Binary) {d : Decimal} (whole fraction : List Char)
    (hdigits : ∀ c ∈ whole ++ fraction, c.isDigit = true) (hne : whole ++ fraction ≠ [])
    (hcoefficient : ofDigits (whole ++ fraction) = d.coefficient)
    (hexponent : -(fraction.length : Int) = d.exponent) :
    ∃ n : Numeral, n.text = whole ++ '.' :: fraction ∧ n.decimal.nearest b = d.nearest b := by
  refine ⟨⟨⟨whole, some fraction, hdigits, hne⟩, none⟩, by simp [Numeral.text, Mantissa.text], ?_⟩
  simp [Numeral.decimal, hcoefficient, hexponent]

theorem exists_numeral_of_positional (hb : b.IsRegular) (d : Decimal) :
    ∃ n : Numeral, n.text = d.positional ∧ n.decimal.nearest b = d.nearest b := by
  simp only [positional]
  split
  · next h => exact exists_numeral_of_zeros hb h
  · next hneg =>
      split
      · next hinside =>
          have hsplit :=
            List.take_append_drop ((digits d.coefficient).length + d.exponent).toNat
              (digits d.coefficient)
          refine exists_numeral_of_point b _ _ ?_ ?_ ?_ ?_
          · rw [hsplit]
            exact fun c hc => isDigit_of_mem_digits hc
          · rw [hsplit]
            exact Nat.toDigits_ne_nil
          · rw [hsplit]
            exact Nat.ofDigitChars_ten_toDigits
          · rw [List.length_drop]
            omega
      · next hbefore =>
          refine exists_numeral_of_point b ['0'] _ ?_ (by simp) ?_ ?_
          · intro c hc
            simp only [List.mem_append, List.mem_cons, List.not_mem_nil, or_false,
              List.mem_replicate] at hc
            rcases hc with rfl | ⟨-, rfl⟩ | hc
            · rfl
            · rfl
            · exact isDigit_of_mem_digits hc
          · have hzeros :=
              ofDigits_zeros_append
                ((-((digits d.coefficient).length + d.exponent)).toNat + 1) d.coefficient
            rw [List.replicate_succ] at hzeros
            exact hzeros
          · rw [List.length_append, List.length_replicate]
            omega

def signedExponent (k : Int) : Exponent where
  sign := [if k < 0 then '-' else '+']
  digits := digits k.natAbs
  sign_mem := by split <;> simp
  isDigit _ hc := isDigit_of_mem_digits hc
  ne_nil := Nat.toDigits_ne_nil

theorem value_signedExponent (k : Int) : (signedExponent k).value = k := by
  have hdigits : ofDigits (digits k.natAbs) = k.natAbs := Nat.ofDigitChars_ten_toDigits
  simp only [Exponent.value, signedExponent, hdigits]
  by_cases hk : k < 0
  · simp only [if_pos hk, if_true]
    omega
  · simp only [if_neg hk]
    rw [if_neg (by decide)]
    omega

theorem exists_numeral_of_scientific (d : Decimal) :
    ∃ n : Numeral, n.text = d.scientific ∧ n.decimal = d := by
  obtain ⟨c, cs, hds⟩ : ∃ c cs, digits d.coefficient = c :: cs :=
    List.exists_cons_of_ne_nil Nat.toDigits_ne_nil
  have hdigits : ∀ x ∈ c :: cs, x.isDigit = true := by
    rw [← hds]
    exact fun x hx => isDigit_of_mem_digits hx
  have hvalue : ofDigits (c :: cs) = d.coefficient := by
    rw [← hds]
    exact Nat.ofDigitChars_ten_toDigits
  have hleading : d.leading = d.exponent + cs.length := by
    rw [leading, hds, List.length_cons]
    omega
  cases cs with
  | nil =>
      refine ⟨⟨⟨[c], none, by simpa using hdigits, by simp⟩, some (signedExponent d.leading)⟩, ?_,
        ?_⟩
      · simp [Numeral.text, Mantissa.text, Exponent.text, signedExponent, scientific, hds]
      · rw [Numeral.decimal]
        simp only [Option.getD_none, List.append_nil, hvalue, Option.elim_some,
          value_signedExponent]
        simp [hleading]
  | cons c' cs =>
      refine ⟨⟨⟨[c], some (c' :: cs), by simpa using hdigits, by simp⟩,
        some (signedExponent d.leading)⟩, ?_, ?_⟩
      · simp [Numeral.text, Mantissa.text, Exponent.text, signedExponent, scientific, hds]
      · rw [Numeral.decimal]
        simp only [Option.getD_some, List.singleton_append, hvalue, Option.elim_some,
          value_signedExponent]
        simp [hleading]

theorem exists_numeral_of_layout (hb : b.IsRegular) (d : Decimal) :
    ∃ n : Numeral, n.text = layout d ∧ n.decimal.nearest b = d.nearest b := by
  rw [layout]
  split
  · exact exists_numeral_of_positional hb d
  · obtain ⟨n, htext, hdecimal⟩ := exists_numeral_of_scientific d
    exact ⟨n, htext, by rw [hdecimal]⟩

end Decimal

namespace Number

/-- The text of a finite number, where zero has no sign. -/
theorem exists_numeral_of_text {negative : Bool} {code : Nat} (h : code < Binary.double.infinity)
    (hzero : code = 0 → negative = false) :
    ∃ n : Numeral, (text (ofMagnitude negative code)).toList =
      (if negative then ['-'] else []) ++ n.text ∧ n.value = ofMagnitude false code := by
  have hmagnitude := magnitude_ofMagnitude negative h
  have hfinite := isFinite_ofMagnitude negative h
  have hdefined : ¬ IsUndefined (ofMagnitude negative code) := by
    rw [IsUndefined, hmagnitude]
    omega
  rw [text, if_neg hdefined, if_neg (not_not_intro hfinite), hmagnitude,
    isNegative_ofMagnitude negative h]
  split
  · next hcode =>
      subst hcode
      rw [hzero rfl]
      exact ⟨⟨⟨['0'], none, by simp, by decide⟩, none⟩, rfl, rfl⟩
  · obtain ⟨n, htext, hdecimal⟩ :=
      Decimal.exists_numeral_of_layout Binary.isRegular_double (Decimal.shortest Binary.double code)
    refine ⟨n, ?_, ?_⟩
    · rw [String.toList_ofList, htext]
      cases negative <;> rfl
    · rw [Numeral.value, ofDecimal, hdecimal,
        Decimal.nearest_shortest Binary.isRegular_double (Nat.le_of_lt h)]

end Number

end TalkingCalculator
