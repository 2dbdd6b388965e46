import TalkingCalculator.Proofs.Characters
import TalkingCalculator.Proofs.NumberText

namespace TalkingCalculator

/-- A whole part, and the digits after the point if there is one. -/
structure PlainDecimal where
  whole : Nat
  fraction : Option (List Char)
  isDigit : ∀ c ∈ fraction.getD [], c.isDigit = true

def PlainDecimal.text (p : PlainDecimal) : List Char :=
  digits p.whole ++ p.fraction.elim [] ('.' :: ·)

namespace PlainDecimal

theorem isDigit_or_eq_of_mem_text {p : PlainDecimal} {c : Char} (hc : c ∈ p.text) :
    c.isDigit = true ∨ c = '.' := by
  have hfraction := p.isDigit
  rcases List.mem_append.1 hc with hc | hc
  · exact .inl (Decimal.isDigit_of_mem_digits hc)
  · cases h : p.fraction with
    | none =>
        rw [h] at hc
        cases hc
    | some ds =>
        rw [h] at hc hfraction
        exact (List.mem_cons.1 hc).symm.imp_left (hfraction c)

theorem exists_text_eq (p : PlainDecimal) : ∃ c cs, p.text = c :: cs ∧ c.isDigit = true := by
  obtain ⟨c, cs, hwhole⟩ :=
    List.exists_cons_of_ne_nil (Nat.toDigits_ne_nil (n := p.whole) (b := 10))
  refine ⟨c, cs ++ p.fraction.elim [] ('.' :: ·), by rw [text, digits, hwhole, List.cons_append],
    ?_⟩
  exact Decimal.isDigit_of_mem_digits (n := p.whole) (by simp [digits, hwhole])

theorem isVisible_of_mem_text {p : PlainDecimal} {c : Char} (hc : c ∈ p.text) : IsVisible c := by
  rcases isDigit_or_eq_of_mem_text hc with hc | rfl
  · exact isVisible_of_isDigit hc
  · decide

theorem not_mem_text {p : PlainDecimal} {c : Char} (hdigit : c.isDigit = false) (hpoint : c ≠ '.') :
    c ∉ p.text := by
  intro hc
  rcases isDigit_or_eq_of_mem_text hc with hc | hc
  · rw [hdigit] at hc
    cases hc
  · exact hpoint hc

theorem eq_of_text_eq_singleton {p : PlainDecimal} {c : Char} (h : p.text = [c]) :
    p.fraction = none ∧ p.whole < 10 ∧ c = p.whole.digitChar := by
  have hfraction : p.fraction = none := by
    cases hp : p.fraction with
    | none => rfl
    | some ds =>
        have hlength := congrArg List.length h
        have hpositive := Nat.length_toDigits_pos (n := p.whole) (b := 10)
        rw [text, hp, Option.elim_some, List.length_append, List.length_cons,
          List.length_singleton] at hlength
        rw [digits] at hlength
        omega
  rw [text, hfraction, Option.elim_none, List.append_nil] at h
  have hwhole : p.whole < 10 ^ 1 := by
    rw [← Nat.length_toDigits_le_iff (by decide) (by decide), ← digits, h]
    simp
  rw [digits, Nat.toDigits_of_lt_base (by omega)] at h
  exact ⟨hfraction, by omega, (List.singleton_inj.1 h).symm⟩

end PlainDecimal

namespace Decimal

theorem exists_digitChar {c : Char} (h : c.isDigit = true) : ∃ n < 10, n.digitChar = c := by
  have h0 : ('0' : Char).val.toNat = 48 := rfl
  have h9 : ('9' : Char).val.toNat = 57 := rfl
  simp only [Char.isDigit, Bool.and_eq_true, decide_eq_true_eq, ge_iff_le, UInt32.le_iff_toNat_le,
    h0, h9] at h
  change 48 ≤ c.toNat ∧ c.toNat ≤ 57 at h
  have hn : c.toNat - 48 < 10 := by omega
  refine ⟨c.toNat - 48, hn, ?_⟩
  rw [← Char.toNat_inj, Nat.toNat_digitChar_of_lt_ten hn]
  omega

theorem digits_ofDigits {cs : List Char} (hcs : ∀ c ∈ cs, c.isDigit = true) (hne : cs ≠ [])
    (hhead : cs.head? ≠ some '0') :
    digits (ofDigits cs) = cs := by
  induction cs using List.reverseRecOn with
  | nil => exact absurd rfl hne
  | append_singleton cs c ih =>
      obtain ⟨n, hn, rfl⟩ := exists_digitChar (hcs c (by simp))
      have hvalue : ofDigits (cs ++ [n.digitChar]) = 10 * ofDigits cs + n := by
        rw [ofDigits, Nat.ofDigitChars_append, Nat.ofDigitChars_cons_digitChar_of_lt_ten hn,
          Nat.ofDigitChars_nil]
      rw [hvalue]
      by_cases hnil : cs = []
      · rw [hnil, ofDigits, Nat.ofDigitChars_nil, Nat.mul_zero, Nat.zero_add]
        exact Nat.toDigits_of_lt_base hn
      · rw [List.head?_append_of_ne_nil _ hnil] at hhead
        have hrest := ih (fun d hd => hcs d (List.mem_append_left _ hd)) hnil hhead
        have hpositive : 0 < ofDigits cs := by
          rw [Nat.pos_iff_ne_zero]
          intro hzero
          rw [hzero, digits, Nat.toDigits_zero] at hrest
          exact hhead (by rw [← hrest]; rfl)
        rw [digits, ← Nat.toDigits_append_toDigits (by decide) hpositive hn,
          Nat.toDigits_of_lt_base hn]
        exact congrArg (· ++ _) hrest

theorem exists_whole {cs : List Char} (hcs : ∀ c ∈ cs, c.isDigit = true) (hne : cs ≠ [])
    (hhead : cs.head? ≠ some '0') (hlength : cs.length ≤ 21) : ∃ n < 10 ^ 21, digits n = cs := by
  have hdigits := digits_ofDigits hcs hne hhead
  refine ⟨ofDigits cs, ?_, hdigits⟩
  rw [← Nat.length_toDigits_le_iff (by decide) (by decide)]
  exact (congrArg List.length hdigits).trans_le hlength

theorem exists_plainDecimal_of_positional {d : Decimal} (hne : d.coefficient ≠ 0)
    (hleading : d.leading < 21) :
    ∃ p : PlainDecimal, p.text = d.positional ∧ p.whole < 10 ^ 21 := by
  have hdigits : ∀ c ∈ digits d.coefficient, c.isDigit = true :=
    fun c hc => isDigit_of_mem_digits hc
  have hzeros : ∀ k, ∀ c ∈ List.replicate k '0', c.isDigit = true :=
    fun k c hc => by rw [List.eq_of_mem_replicate hc]; rfl
  rw [leading] at hleading
  simp only [positional]
  split
  · next hexponent =>
      have hhead : (digits d.coefficient ++ List.replicate d.exponent.toNat '0').head? ≠
          some '0' := by
        rw [List.head?_append_of_ne_nil _ Nat.toDigits_ne_nil]
        exact head?_digits_ne_zero hne
      obtain ⟨n, hn, hwhole⟩ := exists_whole (List.forall_mem_append.2 ⟨hdigits, hzeros _⟩)
        (List.append_ne_nil_of_left_ne_nil Nat.toDigits_ne_nil _) hhead
          (by rw [List.length_append, List.length_replicate]; omega)
      exact ⟨⟨n, none, by simp⟩, by simp [PlainDecimal.text, hwhole], hn⟩
  · split
    · next hexponent hinside =>
        generalize hk : ((digits d.coefficient).length + d.exponent).toNat = k
        have hhead : ((digits d.coefficient).take k).head? ≠ some '0' := by
          rw [List.head?_take, if_neg (by omega)]
          exact head?_digits_ne_zero hne
        obtain ⟨n, hn, hwhole⟩ := exists_whole (fun c hc => hdigits c (List.mem_of_mem_take hc))
          (List.ne_nil_of_length_pos (by rw [List.length_take]; omega)) hhead
            (by rw [List.length_take]; omega)
        exact ⟨⟨n, some ((digits d.coefficient).drop k),
          fun c hc => hdigits c (List.mem_of_mem_drop hc)⟩, by simp [PlainDecimal.text, hwhole], hn⟩
    · generalize (-((digits d.coefficient).length + d.exponent)).toNat = k
      exact ⟨⟨0, some (List.replicate k '0' ++ digits d.coefficient),
        List.forall_mem_append.2 ⟨hzeros k, hdigits⟩⟩, by simp [PlainDecimal.text],
        Nat.pow_pos (by decide)⟩

theorem exists_isDigit_of_scientific (d : Decimal) :
    (∃ c ∈ d.scientific, c.isDigit = true) ∧ 'e' ∈ d.scientific := by
  rw [scientific]
  refine ⟨?_, by simp⟩
  obtain ⟨c, cs, hcs⟩ :=
    List.exists_cons_of_ne_nil (Nat.toDigits_ne_nil (n := d.leading.natAbs) (b := 10))
  have hc : c ∈ digits d.leading.natAbs := by simp [digits, hcs]
  exact ⟨c, by simp [hc], isDigit_of_mem_digits hc⟩

end Decimal

namespace Number

/-- After its minus, if it has one, the text of a finite number has digits and an exponent, or it is
a plain decimal. -/
theorem exists_of_text {x : Float} (hx : IsFinite x) :
    ∃ (negative : Bool) (body : List Char),
      (text x).toList = (if negative then ['-'] else []) ++ body ∧
      ((∃ c ∈ body, c.isDigit = true) ∧ 'e' ∈ body ∨
        ∃ p : PlainDecimal, p.text = body ∧ p.whole < 10 ^ 21) := by
  have hdefined : ¬ IsUndefined x := Nat.lt_asymm hx
  rw [text, if_neg hdefined, if_neg (not_not_intro hx)]
  split
  · exact ⟨false, ['0'], rfl, .inr ⟨⟨0, none, by simp⟩, rfl, by decide⟩⟩
  · next hzero =>
      refine ⟨isNegative x, layout (Decimal.shortest Binary.double (magnitude x)), ?_, ?_⟩
      · rw [String.toList_ofList]
        split <;> rfl
      · rw [layout]
        split
        · next hleading =>
            have hne :=
              Decimal.coefficient_shortest_ne_zero Binary.isRegular_double hzero (Nat.le_of_lt hx)
            exact .inr (Decimal.exists_plainDecimal_of_positional hne hleading.2)
        · exact .inl (Decimal.exists_isDigit_of_scientific _)

end Number

end TalkingCalculator
