import TalkingCalculator.Proofs.Magnitudes

namespace TalkingCalculator

section RoundHalfEven

variable {num den : Nat}

theorem roundHalfEven_le (num : Nat) (hden : 0 < den) :
    2 * (roundHalfEven num den * den) ≤ 2 * num + den ∧
      (2 * (roundHalfEven num den * den) = 2 * num + den → roundHalfEven num den % 2 = 0) := by
  have hsplit := Nat.div_add_mod' num den
  have hrest := Nat.mod_lt num hden
  have hsucc : (num / den + 1) * den = num / den * den + den := Nat.succ_mul _ _
  unfold roundHalfEven
  dsimp only
  split
  · omega
  · next h =>
      have htie := Nat.compare_eq_eq.1 h
      rcases Nat.mod_two_eq_zero_or_one (num / den) with heven | hodd
      · rw [heven, Nat.add_zero]
        omega
      · rw [hodd, hsucc]
        omega
  · next h =>
      have hgt := Nat.compare_eq_gt.1 h
      omega

theorem le_roundHalfEven (num : Nat) (hden : 0 < den) :
    2 * num ≤ 2 * (roundHalfEven num den * den) + den ∧
      (2 * num = 2 * (roundHalfEven num den * den) + den → roundHalfEven num den % 2 = 0) := by
  have hsplit := Nat.div_add_mod' num den
  have hrest := Nat.mod_lt num hden
  have hsucc : (num / den + 1) * den = num / den * den + den := Nat.succ_mul _ _
  unfold roundHalfEven
  dsimp only
  split
  · next h =>
      have hlt := Nat.compare_eq_lt.1 h
      omega
  · next h =>
      have htie := Nat.compare_eq_eq.1 h
      rcases Nat.mod_two_eq_zero_or_one (num / den) with heven | hodd
      · rw [heven, Nat.add_zero]
        omega
      · rw [hodd, hsucc]
        omega
  · next h =>
      have hgt := Nat.compare_eq_gt.1 h
      omega

theorem roundHalfEven_le_of_lt {k : Nat} (hden : 0 < den) (h : num < k * den) :
    roundHalfEven num den ≤ k := by
  have hround := (roundHalfEven_le num hden).1
  refine Nat.le_of_not_lt fun hk => ?_
  have hmul : (k + 1) * den ≤ roundHalfEven num den * den := Nat.mul_le_mul_right den hk
  have hsucc : (k + 1) * den = k * den + den := Nat.succ_mul _ _
  omega

theorem le_roundHalfEven_of_le {k : Nat} (hden : 0 < den) (h : k * den ≤ num) :
    k ≤ roundHalfEven num den := by
  have hround := (le_roundHalfEven num hden).1
  refine Nat.le_of_not_lt fun hk => ?_
  have hmul : (roundHalfEven num den + 1) * den ≤ k * den := Nat.mul_le_mul_right den hk
  have hsucc : (roundHalfEven num den + 1) * den = roundHalfEven num den * den + den :=
    Nat.succ_mul _ _
  omega

end RoundHalfEven

namespace Binary

variable {b : Binary} {num den : Nat}

/-- How often the mantissa is doubled to reach a quotient that is counted in least positive
magnitudes. -/
def shiftOf (b : Binary) (num den : Nat) : Nat :=
  (num / den).log2 - b.fractionBits

/-- The code that a quotient, counted in least positive magnitudes, is rounded to if there is no
limit. -/
def unboundedNearest (b : Binary) (num den : Nat) : Nat :=
  roundHalfEven num (den * 2 ^ b.shiftOf num den) + b.shiftOf num den * b.fractionCount

theorem nearest_eq_min (b : Binary) (num den : Nat) :
    b.nearest num den = min b.infinity (b.unboundedNearest (num * b.scale) den) :=
  rfl

theorem lt_of_shiftOf (b : Binary) (num : Nat) (hden : 0 < den) :
    num < 2 * b.fractionCount * (den * 2 ^ b.shiftOf num den) := by
  have hlog : num / den < 2 ^ (b.fractionBits + b.shiftOf num den + 1) := by
    refine Nat.lt_of_lt_of_le Nat.lt_log2_self (Nat.pow_le_pow_right (by omega) ?_)
    rw [shiftOf]
    omega
  have hnum := (Nat.div_lt_iff_lt_mul hden).1 hlog
  have hpow : 2 ^ (b.fractionBits + b.shiftOf num den + 1) * den =
      2 * b.fractionCount * (den * 2 ^ b.shiftOf num den) := by
    change _ = 2 * 2 ^ b.fractionBits * _
    rw [Nat.pow_succ, Nat.pow_add]
    ac_rfl
  omega

theorem le_of_shiftOf (hden : 0 < den) (hshift : b.shiftOf num den ≠ 0) :
    b.fractionCount * (den * 2 ^ b.shiftOf num den) ≤ num := by
  have hne : num / den ≠ 0 := by
    intro hzero
    rw [shiftOf, hzero] at hshift
    exact hshift (Nat.zero_sub _)
  have hlog : 2 ^ (b.fractionBits + b.shiftOf num den) ≤ num / den := by
    refine Nat.le_trans (Nat.pow_le_pow_right (by omega) ?_) (Nat.log2_self_le hne)
    rw [shiftOf] at hshift ⊢
    omega
  have hnum := (Nat.le_div_iff_mul_le hden).1 hlog
  have hpow : 2 ^ (b.fractionBits + b.shiftOf num den) * den =
      b.fractionCount * (den * 2 ^ b.shiftOf num den) := by
    change _ = 2 ^ b.fractionBits * _
    rw [Nat.pow_add]
    ac_rfl
  omega

theorem fits_shiftOf (b : Binary) (num : Nat) (hden : 0 < den) :
    b.Fits (roundHalfEven num (den * 2 ^ b.shiftOf num den)) (b.shiftOf num den) := by
  have hpos : 0 < den * 2 ^ b.shiftOf num den := Nat.mul_pos hden (Nat.two_pow_pos _)
  refine ⟨roundHalfEven_le_of_lt hpos (b.lt_of_shiftOf num hden), ?_⟩
  by_cases hshift : b.shiftOf num den = 0
  · exact .inl hshift
  · exact .inr (le_roundHalfEven_of_le hpos (le_of_shiftOf hden hshift))

theorem units_unboundedNearest (b : Binary) (num : Nat) (hden : 0 < den) :
    b.units (b.unboundedNearest num den) =
      roundHalfEven num (den * 2 ^ b.shiftOf num den) * 2 ^ b.shiftOf num den :=
  units_add_mul (b.fits_shiftOf num hden)

theorem shiftOf_eq {shift : Nat} (hden : 0 < den) (hle : b.fractionCount * (den * 2 ^ shift) ≤ num)
    (hlt : num < 2 * b.fractionCount * (den * 2 ^ shift)) : b.shiftOf num den = shift := by
  have hpow : ∀ k, b.fractionCount * (den * 2 ^ k) = 2 ^ (b.fractionBits + k) * den := by
    intro k
    rw [Nat.pow_add]
    change 2 ^ b.fractionBits * _ = _
    ac_rfl
  rw [Nat.mul_assoc, hpow] at hlt
  rw [hpow] at hle
  have hquotient : 2 ^ (b.fractionBits + shift) ≤ num / den := (Nat.le_div_iff_mul_le hden).2 hle
  have hquotient' : num / den < 2 ^ (b.fractionBits + shift + 1) := by
    rw [Nat.div_lt_iff_lt_mul hden, Nat.pow_succ, Nat.mul_right_comm, Nat.mul_comm _ 2]
    exact hlt
  have hne : num / den ≠ 0 := by
    have hpos := Nat.two_pow_pos (b.fractionBits + shift)
    omega
  rw [shiftOf, (Nat.log2_eq_iff hne).2 ⟨hquotient, hquotient'⟩]
  omega

theorem exists_mantissa_of_grain {shift step value grain : Nat} (hden : 0 < den)
    (hgrain : 0 < grain) (hstep : den * 2 ^ shift = step * grain)
    (hle : b.fractionCount * step ≤ value) (hlt : value < 2 * b.fractionCount * step) :
    ∃ mantissa, b.units (b.unboundedNearest (value * grain) den) = mantissa * 2 ^ shift ∧
      2 * (mantissa * step) ≤ 2 * value + step ∧
      (2 * (mantissa * step) = 2 * value + step → mantissa % 2 = 0) ∧
      2 * value ≤ 2 * (mantissa * step) + step := by
  have hpos : 0 < step * grain := by
    rw [← hstep]
    exact Nat.mul_pos hden (Nat.two_pow_pos shift)
  have hshift : b.shiftOf (value * grain) den = shift := by
    refine shiftOf_eq hden ?_ ?_
    · rw [hstep, ← Nat.mul_assoc]
      exact Nat.mul_le_mul_right grain hle
    · rw [hstep, ← Nat.mul_assoc]
      exact Nat.mul_lt_mul_of_pos_right hlt hgrain
  have hleft : ∀ m, 2 * (m * (step * grain)) = 2 * (m * step) * grain := by
    intro m
    rw [← Nat.mul_assoc m, ← Nat.mul_assoc 2]
  have hright : 2 * (value * grain) + step * grain = (2 * value + step) * grain := by
    rw [Nat.add_mul, Nat.mul_assoc]
  obtain ⟨hround, heven⟩ := roundHalfEven_le (value * grain) hpos
  obtain ⟨hround', -⟩ := le_roundHalfEven (value * grain) hpos
  refine ⟨roundHalfEven (value * grain) (step * grain), ?_, ?_, ?_, ?_⟩
  · rw [b.units_unboundedNearest _ hden, hshift, hstep]
  · rw [hleft, hright] at hround
    exact Nat.le_of_mul_le_mul_right hround hgrain
  · rw [hleft, hright] at heven
    exact fun htie => heven (by rw [htie])
  · refine Nat.le_of_mul_le_mul_right ?_ hgrain
    rw [Nat.add_mul, Nat.mul_assoc, ← hleft]
    exact hround'

theorem shiftOf_le {shift : Nat} (hden : 0 < den)
    (h : num < 2 * b.fractionCount * (den * 2 ^ shift)) :
    b.shiftOf num den ≤ shift := by
  refine Nat.le_of_not_lt fun hlt => ?_
  have hle := le_of_shiftOf hden (Nat.ne_zero_of_lt hlt)
  have hpow : 2 * (den * 2 ^ shift) ≤ den * 2 ^ b.shiftOf num den := by
    rw [Nat.mul_left_comm, Nat.mul_comm 2, ← Nat.pow_succ]
    exact Nat.mul_le_mul_left den (Nat.pow_le_pow_right (by decide) hlt)
  have hmul := Nat.mul_le_mul_left b.fractionCount hpow
  rw [Nat.mul_left_comm, ← Nat.mul_assoc] at hmul
  omega

theorem unboundedNearest_le {shift : Nat} (hden : 0 < den)
    (h : num < 2 * b.fractionCount * (den * 2 ^ shift)) :
    b.unboundedNearest num den ≤ 2 * b.fractionCount + shift * b.fractionCount :=
  Nat.add_le_add (b.fits_shiftOf num hden).1 (Nat.mul_le_mul_right _ (shiftOf_le hden h))

theorem unboundedNearest_error {shift : Nat} (hden : 0 < den)
    (h : num < 2 * b.fractionCount * (den * 2 ^ shift)) :
    2 * (b.units (b.unboundedNearest num den) * den) ≤ 2 * num + den * 2 ^ shift ∧
      2 * num ≤ 2 * (b.units (b.unboundedNearest num den) * den) + den * 2 ^ shift := by
  have hpos : 0 < den * 2 ^ b.shiftOf num den := Nat.mul_pos hden (Nat.two_pow_pos _)
  have hstep : den * 2 ^ b.shiftOf num den ≤ den * 2 ^ shift :=
    Nat.mul_le_mul_left den (Nat.pow_le_pow_right (by decide) (shiftOf_le hden h))
  have hle := (roundHalfEven_le num hpos).1
  have hge := (le_roundHalfEven num hpos).1
  rw [b.units_unboundedNearest num hden, Nat.mul_assoc, Nat.mul_comm (2 ^ _) den]
  omega

theorem unboundedNearest_relative_error (hden : 0 < den) (h : b.fractionCount * den ≤ num) :
    2 * b.fractionCount * (b.units (b.unboundedNearest num den) * den) ≤
      2 * b.fractionCount * num + num ∧
      2 * b.fractionCount * num ≤
        2 * b.fractionCount * (b.units (b.unboundedNearest num den) * den) + num := by
  have hpos : 0 < den * 2 ^ b.shiftOf num den := Nat.mul_pos hden (Nat.two_pow_pos _)
  have hstep : b.fractionCount * (den * 2 ^ b.shiftOf num den) ≤ num := by
    by_cases hshift : b.shiftOf num den = 0
    · rw [hshift, Nat.pow_zero, Nat.mul_one]
      exact h
    · exact le_of_shiftOf hden hshift
  have hle := Nat.mul_le_mul_left b.fractionCount (roundHalfEven_le num hpos).1
  have hge := Nat.mul_le_mul_left b.fractionCount (le_roundHalfEven num hpos).1
  rw [b.units_unboundedNearest num hden, Nat.mul_assoc _ _ den, Nat.mul_comm (2 ^ _) den]
  rw [Nat.mul_add, Nat.mul_left_comm, ← Nat.mul_assoc, Nat.mul_left_comm _ 2 num,
    ← Nat.mul_assoc 2 _ num] at hle
  rw [Nat.mul_add, Nat.mul_left_comm, ← Nat.mul_assoc, Nat.mul_left_comm _ 2 (_ * _),
    ← Nat.mul_assoc 2 _ (_ * _)] at hge
  omega

/-- `b.IsNearest num den code` says that a quotient, counted in least positive magnitudes, lies
between the midpoints on both sides of the value of a code, and on a midpoint only if the code is
even. -/
structure IsNearest (b : Binary) (num den code : Nat) : Prop where
  le_above : 2 * num ≤ (b.units code + b.units (code + 1)) * den
  even_of_above : 2 * num = (b.units code + b.units (code + 1)) * den → code % 2 = 0
  below_le : ∀ c, c + 1 = code → (b.units c + b.units code) * den ≤ 2 * num
  even_of_below : ∀ c, c + 1 = code → (b.units c + b.units code) * den = 2 * num → code % 2 = 0

theorem add_mul_fractionCount_mod_two (hb : 0 < b.fractionBits) (mantissa shift : Nat) :
    (mantissa + shift * b.fractionCount) % 2 = mantissa % 2 := by
  obtain ⟨k, hk⟩ := Nat.exists_eq_add_of_lt hb
  have hcount : b.fractionCount = 2 ^ k * 2 := by
    change 2 ^ b.fractionBits = _
    rw [hk, Nat.zero_add, Nat.pow_succ]
  rw [hcount, ← Nat.mul_assoc, Nat.add_mul_mod_self_right]

theorem units_succ_of_fits {mantissa shift : Nat} (h : b.Fits mantissa shift) :
    b.units (mantissa + shift * b.fractionCount + 1) = mantissa * 2 ^ shift + 2 ^ shift ∨
      b.units (mantissa + shift * b.fractionCount + 1) =
        mantissa * 2 ^ shift + 2 ^ (shift + 1) := by
  rw [← units_add_mul h]
  rcases Nat.lt_or_ge mantissa (2 * b.fractionCount) with hlt | hge
  · exact .inl (units_succ hlt h.2)
  · right
    have hcode : mantissa + shift * b.fractionCount =
        b.fractionCount + (shift + 1) * b.fractionCount := by
      have hle := h.1
      rw [Nat.succ_mul]
      omega
    rw [hcode]
    exact b.units_first shift

theorem units_of_succ_of_fits {mantissa shift c : Nat} (h : b.Fits mantissa shift)
    (hc : c + 1 = mantissa + shift * b.fractionCount) :
    b.units c + 2 ^ shift = mantissa * 2 ^ shift ∨
      mantissa = b.fractionCount ∧ shift ≠ 0 ∧ b.units c < mantissa * 2 ^ shift := by
  -- A mantissa that fits its shift follows a step of that shift or, when it is the first of its
  -- shift, a smaller one.
  have hpos := b.fractionCount_pos
  by_cases hfirst : mantissa = b.fractionCount ∧ shift ≠ 0
  · right
    refine ⟨hfirst.1, hfirst.2, ?_⟩
    rw [← units_add_mul h, ← hc]
    exact b.units_lt_units_succ c
  · left
    obtain ⟨hle, hlow⟩ := h
    obtain ⟨m, rfl⟩ : ∃ m, mantissa = m + 1 := by
      refine Nat.exists_eq_succ_of_ne_zero fun hzero => ?_
      rcases hlow with rfl | hlow <;> omega
    have hfits : b.Fits m shift := ⟨by omega, by omega⟩
    obtain rfl : c = m + shift * b.fractionCount := by omega
    rw [units_add_mul hfits, Nat.succ_mul]

theorem unboundedNearest_above (hb : 0 < b.fractionBits) (num : Nat) (hden : 0 < den) :
    2 * num ≤ (b.units (b.unboundedNearest num den) + b.units (b.unboundedNearest num den + 1)) *
      den ∧
      (2 * num = (b.units (b.unboundedNearest num den) + b.units (b.unboundedNearest num den + 1)) *
        den →
        b.unboundedNearest num den % 2 = 0) := by
  have hpos : 0 < den * 2 ^ b.shiftOf num den := Nat.mul_pos hden (Nat.two_pow_pos _)
  obtain ⟨hround, heven⟩ := le_roundHalfEven num hpos
  have hfits := b.fits_shiftOf num hden
  have hparity : b.unboundedNearest num den % 2 = _ := add_mul_fractionCount_mod_two hb _ _
  rw [b.units_unboundedNearest num hden, hparity]
  rw [unboundedNearest]
  generalize roundHalfEven num (den * 2 ^ b.shiftOf num den) = r at *
  generalize b.shiftOf num den = shift at *
  have hvalue : r * 2 ^ shift * den = r * (den * 2 ^ shift) := by ac_rfl
  rcases units_succ_of_fits hfits with hstep | hstep
  · have hsum : (r * 2 ^ shift + (r * 2 ^ shift + 2 ^ shift)) * den =
        2 * (r * (den * 2 ^ shift)) + den * 2 ^ shift := by
      rw [Nat.add_mul, Nat.add_mul, hvalue, Nat.mul_comm (2 ^ shift)]
      omega
    rw [hstep, hsum]
    exact ⟨hround, heven⟩
  · have hdouble : 2 ^ (shift + 1) * den = 2 * (den * 2 ^ shift) := by
      rw [Nat.pow_succ]
      ac_rfl
    have hsum : (r * 2 ^ shift + (r * 2 ^ shift + 2 ^ (shift + 1))) * den =
        2 * (r * (den * 2 ^ shift)) + 2 * (den * 2 ^ shift) := by
      rw [Nat.add_mul, Nat.add_mul, hvalue, hdouble]
      omega
    rw [hstep, hsum]
    exact ⟨by omega, fun h => by omega⟩

theorem unboundedNearest_below (hb : 0 < b.fractionBits) (num : Nat) (hden : 0 < den) {c : Nat}
    (hc : c + 1 = b.unboundedNearest num den) :
    (b.units c + b.units (b.unboundedNearest num den)) * den ≤ 2 * num ∧
      ((b.units c + b.units (b.unboundedNearest num den)) * den = 2 * num →
        b.unboundedNearest num den % 2 = 0) := by
  have hpos : 0 < den * 2 ^ b.shiftOf num den := Nat.mul_pos hden (Nat.two_pow_pos _)
  obtain ⟨hround, heven⟩ := roundHalfEven_le num hpos
  have hfits := b.fits_shiftOf num hden
  have hparity : b.unboundedNearest num den % 2 = _ := add_mul_fractionCount_mod_two hb _ _
  have hle : b.shiftOf num den ≠ 0 → b.fractionCount * (den * 2 ^ b.shiftOf num den) ≤ num :=
    le_of_shiftOf hden
  rw [b.units_unboundedNearest num hden, hparity]
  rw [unboundedNearest] at hc
  generalize roundHalfEven num (den * 2 ^ b.shiftOf num den) = r at *
  generalize b.shiftOf num den = shift at *
  have hvalue : r * 2 ^ shift * den = r * (den * 2 ^ shift) := by ac_rfl
  rcases units_of_succ_of_fits hfits hc with hstep | ⟨rfl, hshift, hlt⟩
  · have hsum : (b.units c + r * 2 ^ shift) * den + den * 2 ^ shift =
        2 * (r * (den * 2 ^ shift)) := by
      have hmul : (b.units c + 2 ^ shift) * den = r * (den * 2 ^ shift) := by rw [hstep, hvalue]
      rw [Nat.add_mul, Nat.mul_comm (2 ^ shift)] at hmul
      rw [Nat.add_mul, hvalue]
      omega
    exact ⟨by omega, fun h => heven (by omega)⟩
  · have hmul : (b.units c + b.fractionCount * 2 ^ shift) * den < 2 * num := by
      have hlt' := Nat.mul_lt_mul_of_pos_right hlt hden
      rw [Nat.add_mul, hvalue]
      rw [hvalue] at hlt'
      have hle' := hle hshift
      omega
    exact ⟨Nat.le_of_lt hmul, fun h => absurd h (Nat.ne_of_lt hmul)⟩

theorem isNearest_unboundedNearest (hb : 0 < b.fractionBits) (num : Nat) (hden : 0 < den) :
    b.IsNearest num den (b.unboundedNearest num den) where
  le_above := (unboundedNearest_above hb num hden).1
  even_of_above := (unboundedNearest_above hb num hden).2
  below_le _ hc := (unboundedNearest_below hb num hden hc).1
  even_of_below _ hc := (unboundedNearest_below hb num hden hc).2

namespace IsNearest

variable {code : Nat}

theorem not_lt (hden : 0 < den) {d : Nat} (hc : b.IsNearest num den code)
    (hd : b.IsNearest num den d) : ¬ code < d := by
  intro hlt
  obtain ⟨below, rfl⟩ : ∃ below, d = below + 1 := ⟨d - 1, by omega⟩
  have hcode : code ≤ below := Nat.le_of_lt_succ hlt
  have habove := hc.le_above
  have hbelow := hd.below_le below rfl
  have hle : b.units code + b.units (code + 1) ≤ b.units below + b.units (below + 1) :=
    Nat.add_le_add (units_le_units hcode) (units_le_units (Nat.succ_le_succ hcode))
  have hmul := Nat.mul_le_mul_right den hle
  -- the midpoints are the same, so both codes are even, although they are neighbours
  have heq : (b.units code + b.units (code + 1)) * den =
      (b.units below + b.units (below + 1)) * den := by
    omega
  have hsame : code = below := by
    refine Nat.le_antisymm hcode (Nat.le_of_not_lt fun hlt' => ?_)
    have hstrict : b.units code + b.units (code + 1) < b.units below + b.units (below + 1) :=
      Nat.add_lt_add (units_lt_units hlt') (units_lt_units (Nat.succ_lt_succ hlt'))
    have hmul' := Nat.mul_lt_mul_of_pos_right hstrict hden
    omega
  subst hsame
  have heven := hc.even_of_above (by omega)
  have heven' := hd.even_of_below code rfl (by omega)
  omega

theorem unique (hden : 0 < den) {d : Nat} (hc : b.IsNearest num den code)
    (hd : b.IsNearest num den d) : code = d :=
  Nat.le_antisymm (Nat.le_of_not_lt (not_lt hden hd hc)) (Nat.le_of_not_lt (not_lt hden hc hd))

theorem add_le_of_lt {d : Nat} (h : b.IsNearest num den code) (hd : d < code) :
    (b.units d + b.units code) * den ≤ 2 * num := by
  obtain ⟨below, rfl⟩ : ∃ below, code = below + 1 := ⟨code - 1, by omega⟩
  have hle :=
    Nat.add_le_add_right (units_le_units (b := b) (Nat.le_of_lt_succ hd)) (b.units (below + 1))
  exact Nat.le_trans (Nat.mul_le_mul_right den hle) (h.below_le below rfl)

theorem le_add_of_lt {d : Nat} (h : b.IsNearest num den code) (hd : code < d) :
    2 * num ≤ (b.units code + b.units d) * den := by
  have hle := Nat.add_le_add_left (units_le_units (b := b) (Nat.succ_le_of_lt hd)) (b.units code)
  exact Nat.le_trans h.le_above (Nat.mul_le_mul_right den hle)

theorem mul_left {k : Nat} (hk : 0 < k) (h : b.IsNearest num den code) :
    b.IsNearest (k * num) (k * den) code := by
  have hscaled : ∀ m : Nat, m * (k * den) = k * (m * den) := fun m => Nat.mul_left_comm m k den
  have htwo : 2 * (k * num) = k * (2 * num) := Nat.mul_left_comm 2 k num
  refine ⟨?_, ?_, ?_, ?_⟩
  · rw [hscaled, htwo]
    exact Nat.mul_le_mul_left k h.le_above
  · rw [hscaled, htwo]
    exact fun heq => h.even_of_above (Nat.eq_of_mul_eq_mul_left hk heq)
  · intro c hc
    rw [hscaled, htwo]
    exact Nat.mul_le_mul_left k (h.below_le c hc)
  · intro c hc
    rw [hscaled, htwo]
    exact fun heq => h.even_of_below c hc (Nat.eq_of_mul_eq_mul_left hk heq)

theorem self (b : Binary) (hden : 0 < den) (code : Nat) :
    b.IsNearest (b.units code * den) den code := by
  have habove := Nat.mul_lt_mul_of_pos_right (b.units_lt_units_succ code) hden
  refine ⟨?_, ?_, ?_, ?_⟩
  · rw [Nat.add_mul]
    omega
  · intro heq
    rw [Nat.add_mul] at heq
    omega
  all_goals
    rintro c rfl
    have hbelow := Nat.mul_lt_mul_of_pos_right (b.units_lt_units_succ c) hden
    rw [Nat.add_mul]
    omega

end IsNearest

theorem unboundedNearest_eq_of_isNearest (hb : 0 < b.fractionBits) (hden : 0 < den) {code : Nat}
    (h : b.IsNearest num den code) : b.unboundedNearest num den = code :=
  (isNearest_unboundedNearest hb num hden).unique hden h

theorem nearest_mul_left (hb : 0 < b.fractionBits) (hden : 0 < den) {k : Nat} (hk : 0 < k) :
    b.nearest (k * num) (k * den) = b.nearest num den := by
  have hnearest := (isNearest_unboundedNearest hb (num * b.scale) hden).mul_left hk
  rw [nearest_eq_min, nearest_eq_min, Nat.mul_assoc,
    unboundedNearest_eq_of_isNearest hb (Nat.mul_pos hk hden) hnearest]

theorem nearest_units (hb : 0 < b.fractionBits) {code : Nat} (h : code ≤ b.infinity) :
    b.nearest (b.units code) b.scale = code := by
  rw [nearest_eq_min,
    unboundedNearest_eq_of_isNearest hb b.scale_pos (IsNearest.self b b.scale_pos code)]
  exact Nat.min_eq_right h

theorem isNearest_of_nearest_lt (hb : 0 < b.fractionBits) (hden : 0 < den)
    (h : b.nearest num den < b.infinity) :
    b.IsNearest (num * b.scale) den (b.nearest num den) := by
  have hmin := b.nearest_eq_min num den
  have hcode : b.nearest num den = b.unboundedNearest (num * b.scale) den := by omega
  rw [hcode]
  exact isNearest_unboundedNearest hb _ hden

end Binary

end TalkingCalculator
