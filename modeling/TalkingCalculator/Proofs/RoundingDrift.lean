import TalkingCalculator.Proofs.RoundingPasses

/-!
# The drift of counts

From `4096` to the magnitude whose count is `2 ^ 52`, quotients are multiples of `2 ^ -40`, and
products of `2 ^ -1`. There a pass may count one unit more than the one before, but the offset of
the product from the count shrinks with each such pass.
-/

namespace TalkingCalculator.Binary

open Number

variable {b : Binary}

/-- The common grain of quotients and products, in least positive magnitudes. -/
def grain (b : Binary) : Nat :=
  2 ^ (b.depth - 28)

theorem grain_pos (b : Binary) : 0 < b.grain :=
  Nat.two_pow_pos (b.depth - 28)

theorem two_pow_eq_mul_grain (hb : b.IsWide) {k shift : Nat} (h : shift + 28 = b.depth + k) :
    2 ^ shift = 2 ^ k * b.grain := by
  have hle := hb.le_depth
  rw [grain, ← Nat.pow_add]
  congr 1
  omega

theorem scale_eq_mul_grain (hb : b.IsWide) : b.scale = 2 ^ 28 * b.grain := by
  rw [scale_eq_two_pow, two_pow_eq_mul_grain hb rfl]

/-- `b.Quotes code mantissa n` says that a code has the value `mantissa * 2 ^ -40`, and that no
multiple of `2 ^ -40` is nearer to `n` units. -/
structure Quotes (b : Binary) (code mantissa n : Nat) : Prop where
  value : b.units code * placeUnits = mantissa * 5 ^ 12 * b.grain
  le : 2 * (mantissa * 5 ^ 12) ≤ 2 * (n * 2 ^ 28) + 5 ^ 12
  ge : 2 * (n * 2 ^ 28) ≤ 2 * (mantissa * 5 ^ 12) + 5 ^ 12

theorem exists_quotes (hb : b.IsWide) {n : Nat} (hge : 4096 * placeUnits ≤ n)
    (hle : n ≤ b.fractionCount) (h : b.ofCount n < b.infinity) :
    ∃ mantissa, b.Quotes (b.ofCount n) mantissa n := by
  have hlow : b.fractionCount * 5 ^ 12 ≤ n * 2 ^ 28 := by
    rw [placeUnits] at hge
    rw [hb.fractionCount_eq]
    omega
  have hhigh : n * 2 ^ 28 < 2 * b.fractionCount * 5 ^ 12 := by
    rw [hb.fractionCount_eq] at hle ⊢
    omega
  have hstep : placeUnits * 2 ^ (b.depth - 40) = 5 ^ 12 * b.grain := by
    have hunits : placeUnits = 5 ^ 12 * 2 ^ 12 := rfl
    have hdepth := hb.le_depth
    have hpow : b.grain = 2 ^ 12 * 2 ^ (b.depth - 40) := by
      rw [grain, ← Nat.pow_add]
      congr 1
      omega
    rw [hunits, hpow, Nat.mul_assoc]
  obtain ⟨mantissa, hvalue, hround, -, hround'⟩ :=
    exists_mantissa_of_grain placeUnits_pos b.grain_pos hstep hlow hhigh
  rw [Nat.mul_assoc n, ← scale_eq_mul_grain hb, unboundedNearest_ofCount hb h] at hvalue
  refine ⟨mantissa, ⟨?_, hround, hround'⟩⟩
  rw [hvalue, Nat.mul_assoc, Nat.mul_comm (2 ^ _), hstep, ← Nat.mul_assoc]

theorem roundHalfUp_mul_grain (b : Binary) (value unit : Nat) :
    roundHalfUp (value * b.grain) (unit * b.grain) = roundHalfUp value unit := by
  rw [roundHalfUp, roundHalfUp, ← Nat.mul_assoc, ← Nat.mul_assoc, ← Nat.add_mul,
    Nat.mul_div_mul_right _ _ b.grain_pos]

section Product

variable {code value : Nat}

theorem exists_product (hb : b.IsWide) (hvalue : b.units code * placeUnits = value * b.grain)
    {k shift : Nat} (hshift : shift + 28 = b.depth + k) (hle : 2 ^ 52 * 2 ^ k ≤ value)
    (hlt : value < 2 * 2 ^ 52 * 2 ^ k) (h : b.scaledCode code < b.infinity) :
    ∃ mantissa, b.countOf code = roundHalfUp (mantissa * 2 ^ k) (2 ^ 28) ∧
      2 * (mantissa * 2 ^ k) ≤ 2 * value + 2 ^ k ∧
      (2 * (mantissa * 2 ^ k) = 2 * value + 2 ^ k → mantissa % 2 = 0) ∧
        2 * value ≤ 2 * (mantissa * 2 ^ k) + 2 ^ k := by
  have hstep : 1 * 2 ^ shift = 2 ^ k * b.grain := by
    rw [Nat.one_mul]
    exact two_pow_eq_mul_grain hb hshift
  rw [← hb.fractionCount_eq] at hle hlt
  obtain ⟨mantissa, hproduct, hround⟩ :=
    exists_mantissa_of_grain Nat.one_pos b.grain_pos hstep hle hlt
  rw [← hvalue, unboundedNearest_scaledCode hb h, ← Nat.one_mul (2 ^ shift), hstep,
    ← Nat.mul_assoc] at hproduct
  refine ⟨mantissa, ?_, hround⟩
  rw [countOf, hproduct, scale_eq_mul_grain hb, roundHalfUp_mul_grain]

theorem exists_halves (hb : b.IsWide) (hvalue : b.units code * placeUnits = value * b.grain)
    (hle : 2 ^ 79 ≤ value) (hlt : value < 2 ^ 80) (h : b.scaledCode code < b.infinity) :
    ∃ halves, b.countOf code = (halves + 1) / 2 ∧ 2 * (halves * 2 ^ 27) ≤ 2 * value + 2 ^ 27 ∧
      (2 * (halves * 2 ^ 27) = 2 * value + 2 ^ 27 → halves % 2 = 0) ∧
        2 * value ≤ 2 * (halves * 2 ^ 27) + 2 ^ 27 := by
  have hdepth := hb.le_depth
  have hshift : b.depth - 1 + 28 = b.depth + 27 := by omega
  obtain ⟨halves, hcount, hround⟩ := exists_product hb hvalue hshift hle hlt h
  refine ⟨halves, ?_, hround⟩
  rw [hcount, roundHalfUp]
  omega

theorem exists_wholes (hb : b.IsWide) (hvalue : b.units code * placeUnits = value * b.grain)
    (hle : 2 ^ 80 ≤ value) (hlt : value < 2 ^ 81) (h : b.scaledCode code < b.infinity) :
    2 * (b.countOf code * 2 ^ 28) ≤ 2 * value + 2 ^ 28 ∧
    2 * value ≤ 2 * (b.countOf code * 2 ^ 28) + 2 ^ 28 := by
  obtain ⟨wholes, hcount, hround, -, hround'⟩ := exists_product hb hvalue rfl hle hlt h
  obtain rfl : b.countOf code = wholes := by
    rw [hcount, roundHalfUp]
    omega
  exact ⟨hround, hround'⟩

end Product

section Count

variable {code mantissa n : Nat}

theorem countOf_of_quotes (hb : b.IsWide) (hquotes : b.Quotes code mantissa n)
    (hge : 4096 * placeUnits ≤ n) (hle : n ≤ b.fractionCount) (h : b.scaledCode code < b.infinity)
    (hoffset : 4 * (mantissa * 5 ^ 12) ≤ 4 * (n * 2 ^ 28) + 2 ^ 28 ∨ n = b.fractionCount) :
    b.countOf code = n := by
  have hround := hquotes.le
  have hround' := hquotes.ge
  rw [placeUnits] at hge
  rw [hb.fractionCount_eq] at hle hoffset
  rcases Nat.lt_or_ge (mantissa * 5 ^ 12) (2 ^ 80) with hlt | hlarge
  · obtain ⟨halves, hcount, hproduct, heven, hproduct'⟩ :=
      exists_halves hb hquotes.value (by omega) hlt h
    rw [hcount]
    rcases Nat.lt_or_eq_of_le hproduct with hlt' | htie
    · omega
    · have hparity := heven htie
      clear htie heven
      omega
  · have hproduct := exists_wholes hb hquotes.value hlarge (by omega) h
    omega

theorem countOf_of_quotes_succ (hb : b.IsWide) (hquotes : b.Quotes code mantissa n)
    (hge : 4096 * placeUnits ≤ n) (hlt : n < b.fractionCount) (h : b.scaledCode code < b.infinity)
    (hoffset : 4 * (n * 2 ^ 28) + 2 ^ 28 < 4 * (mantissa * 5 ^ 12)) : b.countOf code = n + 1 := by
  have hround := hquotes.le
  rw [placeUnits] at hge
  rw [hb.fractionCount_eq] at hlt
  obtain ⟨halves, hcount, hproduct, -, hproduct'⟩ :=
    exists_halves hb hquotes.value (by omega) (by omega) h
  omega

theorem ofCount_lt_infinity_of_le (hb : b.IsWide) (hle : n ≤ b.fractionCount) :
    b.ofCount n < b.infinity := by
  have hcount := Nat.mul_le_mul_right b.scale hle
  have hlimit := fractionCount_mul_scale_lt hb
  exact ofCount_lt_infinity hb (by omega)

theorem settlesWithin_of_offset (hb : b.IsWide) (passes : Nat)
    (hquotes : b.Quotes (b.ofCount n) mantissa n)
    (hge : 4096 * placeUnits ≤ n) (hle : n ≤ b.fractionCount)
    (hoffset : 4 * (mantissa * 5 ^ 12) ≤
      4 * (n * 2 ^ 28) + 2 ^ 28 + passes * (4 * (2 ^ 28 - 5 ^ 12))) :
    b.SettlesWithin passes (b.ofCount n) := by
  -- A pass that grows the count by one adds one to the mantissa too, so the offset shrinks by `2 ^
  -- 28 - 5 ^ 12`.
  induction passes generalizing n mantissa with
  | zero =>
      refine .stays (pass_ofCount_of_countOf_eq fun h => ?_)
      rw [Nat.zero_mul, Nat.add_zero] at hoffset
      exact countOf_of_quotes hb hquotes hge hle h (.inl hoffset)
  | succ passes ih =>
      by_cases hsmall : 4 * (mantissa * 5 ^ 12) ≤ 4 * (n * 2 ^ 28) + 2 ^ 28 ∨ n = b.fractionCount
      · exact .stays (pass_ofCount_of_countOf_eq fun h =>
          countOf_of_quotes hb hquotes hge hle h hsmall)
      · obtain ⟨hlarge, hne⟩ := not_or.1 hsmall
        have hlt : n < b.fractionCount := Nat.lt_of_le_of_ne hle hne
        by_cases h : b.scaledCode (b.ofCount n) < b.infinity
        · have hcount := countOf_of_quotes_succ hb hquotes hge hlt h (Nat.lt_of_not_le hlarge)
          obtain ⟨next, hnext⟩ :=
            exists_quotes hb (Nat.le_succ_of_le hge) hlt (ofCount_lt_infinity_of_le hb hlt)
          have hround := hquotes.le
          have hround' := hnext.le
          have hround'' := hnext.ge
          obtain rfl : next = mantissa + 1 := by omega
          refine .pass ?_
          rw [pass_of_lt h, hcount]
          refine ih hnext (Nat.le_succ_of_le hge) hlt ?_
          rw [Nat.succ_mul] at hoffset
          omega
        · exact .stays (pass_of_not_lt h)

/-- Three passes suffice, as a nearest mantissa leaves an offset of at most half of `5 ^ 12`. -/
theorem settlesWithin_ofCount_of_le (hb : b.IsWide) (hge : 4096 * placeUnits ≤ n)
    (hle : n ≤ b.fractionCount) :
    b.SettlesWithin 3 (b.ofCount n) := by
  obtain ⟨mantissa, hquotes⟩ := exists_quotes hb hge hle (ofCount_lt_infinity_of_le hb hle)
  have hround := hquotes.le
  exact settlesWithin_of_offset hb 3 hquotes hge hle (by omega)

end Count

end TalkingCalculator.Binary
