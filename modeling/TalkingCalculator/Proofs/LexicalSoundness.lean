import TalkingCalculator.Proofs.Successes
import TalkingCalculator.Proofs.WritingTokens

namespace TalkingCalculator

open Input Lexer

namespace Lexer

theorem splitSign_expandPercent (cs : List Char) :
    Decimal.splitSign (expandPercent cs) =
      ((Decimal.splitSign cs).1, expandPercent (Decimal.splitSign cs).2) := by
  by_cases hsign : ∃ c rest, cs = c :: rest ∧ (c = '+' ∨ c = '-')
  · obtain ⟨c, rest, rfl, rfl | rfl⟩ := hsign <;> rw [expandPercent_cons (by decide)] <;> rfl
  · have hcs : ∀ c ∈ cs.head?, c ≠ '+' ∧ c ≠ '-' := by
      intro c hc
      obtain ⟨rest, rfl⟩ := List.head?_eq_some_iff.1 hc
      exact not_or.1 fun h => hsign ⟨c, rest, rfl, h⟩
    have hexpanded : ∀ c ∈ (expandPercent cs).head?, c ≠ '+' ∧ c ≠ '-' := by
      intro c hc
      rcases head?_expandPercent cs c hc with rfl | hc
      · decide
      · exact hcs c hc
    rw [Decimal.splitSign_of_head? hcs, Decimal.splitSign_of_head? hexpanded]

theorem not_isDigit_of_isMantissa_eq_false {c : Char} (h : isMantissa c = false) :
    c.isDigit = false := by
  simp only [isMantissa, Bool.or_eq_false_iff] at h
  exact h.1

theorem exists_digits_of_expandPercent (cs : List Char) :
    ∃ ds rest, (∀ c ∈ ds, c.isDigit = true) ∧ (expandPercent cs).takeWhile Char.isDigit = ds ∧
      (ds ≠ [] → cs = ds ++ rest ∧ (expandPercent cs).dropWhile Char.isDigit = expandPercent rest ∧
        rest.head? ≠ some '%') := by
  rcases exists_percentage_or_run cs with
    ⟨run, rest, rfl, hne, hrun⟩ | ⟨run, rest, rfl, hrun, hrest⟩
  · refine ⟨[], [], by simp, ?_, by simp⟩
    rw [expandPercent_percentage hne hrun]
    rfl
  · obtain ⟨ds, more, rfl, hds, hmore⟩ := exists_run Char.isDigit run
    have hafter : ∀ c ∈ (more ++ expandPercent rest).head?, c.isDigit = false := by
      intro c hc
      cases more with
      | cons d more => exact hmore c hc
      | nil =>
          rcases head?_expandPercent rest c hc with rfl | hc
          · decide
          · exact not_isDigit_of_isMantissa_eq_false (hrest c hc).1
    refine ⟨ds, more ++ rest, hds, ?_, fun hne => ⟨by simp, ?_, ?_⟩⟩
    · rw [expandPercent_run hrun hrest, List.append_assoc, takeWhile_run hds hafter]
    · have hmantissa : ∀ c ∈ more, isMantissa c = true := fun c hc => hrun c (by simp [hc])
      have hrest' : ∀ c ∈ rest.head?, isMantissa c = false ∧ (c = '%' → more = []) :=
        fun c hc => ⟨(hrest c hc).1, fun h => (List.append_eq_nil_iff.1 ((hrest c hc).2 h)).2⟩
      rw [expandPercent_run hrun hrest, List.append_assoc, dropWhile_run hds hafter,
        expandPercent_run hmantissa hrest']
    · intro hhead
      cases more with
      | nil => exact hne (List.append_eq_nil_iff.1 ((hrest '%' hhead).2 rfl)).1
      | cons d more =>
          obtain rfl : d = '%' := by simpa using hhead
          exact absurd (hrun '%' (by simp)) (by decide)

theorem exists_of_splitExponent {cs : List Char} (hcs : cs.head? ≠ some '%') :
    ∃ exponent rest, cs = exponent ++ rest ∧
      splitExponent (expandPercent cs) = (exponent, expandPercent rest) ∧ rest.head? ≠ some '%' ∧
      'E' ∉ exponent := by
  by_cases hmark : cs.head? = some 'e'
  · obtain ⟨cs, rfl⟩ := List.head?_eq_some_iff.1 hmark
    obtain ⟨ds, rest, hds, htake, hrest⟩ := exists_digits_of_expandPercent (Decimal.splitSign cs).2
    rw [expandPercent_cons (by decide)]
    simp only [splitExponent, splitSign_expandPercent, htake]
    by_cases hne : ds = []
    · refine ⟨[], 'e' :: cs, rfl, ?_, hcs, by simp⟩
      rw [if_pos hne, expandPercent_cons (by decide)]
    · obtain ⟨hsplit, hdrop, hpercent⟩ := hrest hne
      refine ⟨'e' :: (Decimal.splitSign cs).1 ++ ds, rest, ?_, ?_, hpercent, ?_⟩
      · rw [List.append_assoc, ← hsplit, List.cons_append, Decimal.splitSign_append]
      · rw [if_neg hne, hdrop]
      · intro hE
        have hsigns : ∀ s ∈ [[], ['+'], ['-']], 'E' ∉ 'e' :: s := by decide
        rcases List.mem_append.1 hE with hE | hE
        · exact hsigns _ (Decimal.splitSign_mem cs) hE
        · exact absurd (hds 'E' hE) (by decide)
  · refine ⟨[], cs, rfl, splitExponent_of_head? fun c hc => ?_, hcs, by simp⟩
    rintro rfl
    rcases head?_expandPercent cs 'e' hc with h | h
    · cases h
    · exact hmark h

theorem exists_of_numberToken {cs : List Char} {t : Token} (h : numberToken cs = .ok t)
    (hmark : 'E' ∉ cs) :
    ∃ n : Numeral, n.text = cs ∧ t = .number n.value := by
  unfold numberToken at h
  split at h
  · next d hd =>
      obtain ⟨n, hn, rfl⟩ := Numeral.exists_of_read? hd hmark
      cases h
      exact ⟨n, hn, rfl⟩
  · cases h

end Lexer

/-- `Begins cs ts` says that the text `cs` begins with a lexeme, the tokens `ts` with those of the
lexeme, and that the other tokens are those of the rest of the text. -/
def Begins (cs : List Char) (ts : List Token) : Prop :=
  ∃ w l rest us, cs = w ++ rest ∧ Lexeme.Spells w l ∧
    (∀ c ∈ w.getLast?, isMantissa c = true → rest.head? ≠ some '%') ∧
    ts = l.tokens ++ us ∧ tokens (expandPercent rest) = .ok us

theorem not_mem_of_isMantissa {run : List Char} (hrun : ∀ c ∈ run, isMantissa c = true) {c : Char}
    (hc : isMantissa c = false) : c ∉ run := by
  intro hmem
  rw [hrun c hmem] at hc
  cases hc

theorem exists_mantissa_of_percentage {run rest : List Char} {ts : List Token} (hne : run ≠ [])
    (hrun : ∀ c ∈ run, isMantissa c = true)
    (h : tokens (expandPercent (run ++ '%' :: rest)) = .ok ts) :
    ∃ m : Mantissa, m.text = run := by
  -- The run before a percent sign is a mantissa, for its fraction of a hundred would not be cut
  -- into tokens otherwise.
  have hexpand : asFraction run ++ expandPercent rest =
      '(' :: (run ++ '/' :: ('1' :: '0' :: '0' :: ')' :: expandPercent rest)) := by
    simp [asFraction]
  rw [expandPercent_percentage hne hrun, hexpand, tokens_symbol rfl,
    tokens_numeral hne hrun (by simp; decide)] at h
  obtain ⟨us, hus, -⟩ := exists_of_map_eq_ok h
  obtain ⟨t, ht, -⟩ := exists_of_bind_eq_ok hus
  rw [splitExponent_of_head? (by simp), List.append_nil] at ht
  obtain ⟨n, hn, -⟩ := exists_of_numberToken ht (not_mem_of_isMantissa hrun (by decide))
  have hexponent : n.exponent = none :=
    Numeral.exponent_eq_none (by rw [hn]; exact not_mem_of_isMantissa hrun (by decide))
  exact ⟨n.mantissa, by simpa [Numeral.text, hexponent] using hn⟩

theorem begins_percentage {run rest : List Char} {ts : List Token} (hne : run ≠ [])
    (hrun : ∀ c ∈ run, isMantissa c = true)
    (h : tokens (expandPercent (run ++ '%' :: rest)) = .ok ts) :
    Begins (run ++ '%' :: rest) ts := by
  obtain ⟨m, rfl⟩ := exists_mantissa_of_percentage hne hrun h
  rw [tokens_percentage] at h
  obtain ⟨us, hus, rfl⟩ := exists_of_map_eq_ok h
  refine ⟨m.text ++ ['%'], _, rest, us, by simp, .percentage m, fun c hc hmantissa => ?_, rfl, hus⟩
  obtain rfl : '%' = c := by simpa using hc
  exact absurd hmantissa (by decide)

theorem begins_numeral {run rest : List Char} {ts : List Token} (hne : run ≠ [])
    (hrun : ∀ c ∈ run, isMantissa c = true)
    (hrest : ∀ c ∈ rest.head?, isMantissa c = false ∧ (c = '%' → run = []))
    (h : tokens (expandPercent (run ++ rest)) = .ok ts) : Begins (run ++ rest) ts := by
  have hexpanded : ∀ c ∈ (expandPercent rest).head?, isMantissa c = false := by
    intro c hc
    rcases head?_expandPercent rest c hc with rfl | hc
    · decide
    · exact (hrest c hc).1
  obtain ⟨exponent, rest, rfl, hsplit, hpercent, hmark⟩ :=
    exists_of_splitExponent fun hhead => hne ((hrest '%' hhead).2 rfl)
  rw [expandPercent_run hrun hrest, tokens_numeral hne hrun hexpanded, hsplit] at h
  obtain ⟨t, ht, h⟩ := exists_of_bind_eq_ok h
  obtain ⟨us, hus, rfl⟩ := exists_of_map_eq_ok h
  have hmark' : 'E' ∉ run ++ exponent := by
    rw [List.mem_append, not_or]
    exact ⟨not_mem_of_isMantissa hrun (by decide), hmark⟩
  obtain ⟨n, hn, rfl⟩ := exists_of_numberToken ht hmark'
  exact ⟨n.text, _, rest, us, by rw [hn, List.append_assoc], .numeral n, fun _ _ _ => hpercent, rfl,
    hus⟩

theorem begins_word {w rest : List Char} {ts : List Token} (hne : w ≠ [])
    (hw : ∀ c ∈ w, c.isAlpha = true) (hrest : ∀ c ∈ rest.head?, c.isAlpha = false)
    (h : tokens (expandPercent (w ++ rest)) = .ok ts) : Begins (w ++ rest) ts := by
  have hexpanded : ∀ c ∈ (expandPercent rest).head?, c.isAlpha = false := by
    intro c hc
    rcases head?_expandPercent rest c hc with rfl | hc
    · decide
    · exact hrest c hc
  have hpercent : ∀ c ∈ w.getLast?, isMantissa c = true → rest.head? ≠ some '%' := by
    intro c hc hmantissa
    rw [isMantissa_eq_false (hw c (List.mem_of_mem_getLast? hc))] at hmantissa
    cases hmantissa
  rw [expandPercent_append fun c hc => isMantissa_eq_false (hw c hc),
    tokens_word hne hw hexpanded] at h
  obtain ⟨t, ht, h⟩ := exists_of_bind_eq_ok h
  obtain ⟨us, hus, rfl⟩ := exists_of_map_eq_ok h
  have hspells : (Lexeme.token t).Spells w := by
    unfold wordToken at ht
    split at ht
    · next hpi =>
        cases ht
        rw [← String.toList_ofList (l := w), hpi]
        exact .pi
    · split at ht
      · next heuler =>
          cases ht
          rw [← String.toList_ofList (l := w), heuler]
          exact .euler
      · split at ht
        · next hname =>
            cases ht
            conv_lhs => rw [← String.toList_ofList (l := w)]
            exact .name _ hname
        · cases ht
  exact ⟨w, _, rest, us, rfl, hspells, hpercent, rfl, hus⟩

theorem begins_symbol {c : Char} {cs : List Char} {t : Token} {ts : List Token}
    (hc : symbolToken? c = some t) (h : tokens (expandPercent (c :: cs)) = .ok ts) :
    Begins (c :: cs) ts := by
  have hmantissa := isMantissa_of_symbolToken? hc
  rw [expandPercent_cons hmantissa, tokens_symbol hc] at h
  obtain ⟨us, hus, rfl⟩ := exists_of_map_eq_ok h
  have hspells : (Lexeme.token t).Spells [c] := by
    rcases symbolToken?_eq_some hc with ⟨rfl, rfl⟩ | ⟨rfl, rfl⟩ | ⟨rfl, rfl⟩ | ⟨op, rfl, rfl⟩
    · exact .opening
    · exact .closing
    · exact .comma
    · exact .operator op
  refine ⟨[c], _, cs, us, rfl, hspells, fun d hd hd' => ?_, rfl, hus⟩
  obtain rfl : c = d := by simpa using hd
  rw [hmantissa] at hd'
  cases hd'

theorem begins_of_tokens {c : Char} {cs : List Char} {ts : List Token} (hc : Text.isBlank c = false)
    (h : tokens (expandPercent (c :: cs)) = .ok ts) : Begins (c :: cs) ts := by
  by_cases hmantissa : isMantissa c = true
  · rcases exists_percentage_or_run (c :: cs) with
      ⟨run, rest, hcs, hne, hrun⟩ | ⟨run, rest, hcs, hrun, hrest⟩
    · rw [hcs] at h ⊢
      exact begins_percentage hne hrun h
    · have hne : run ≠ [] := by
        rintro rfl
        rw [List.nil_append] at hcs
        rw [(hrest c (by simp [← hcs])).1] at hmantissa
        cases hmantissa
      rw [hcs] at h ⊢
      exact begins_numeral hne hrun hrest h
  · by_cases halpha : c.isAlpha = true
    · obtain ⟨w, rest, hcs, hw, hrest⟩ := exists_run Char.isAlpha (c :: cs)
      have hne : w ≠ [] := by
        rintro rfl
        rw [List.nil_append] at hcs
        rw [hrest c (by simp [← hcs])] at halpha
        cases halpha
      rw [hcs] at h ⊢
      exact begins_word hne hw hrest h
    · cases hsymbol : symbolToken? c with
      | some t => exact begins_symbol hsymbol h
      | none =>
          simp only [Bool.not_eq_true] at hmantissa halpha
          rw [expandPercent_cons hmantissa, tokens] at h
          simp [hc, hsymbol, halpha, hmantissa] at h

/-- What is cut into tokens once it has been expanded is a writing of lexemes with these tokens. -/
theorem exists_writes_of_tokens {cs : List Char} {ts : List Token}
    (h : tokens (expandPercent cs) = .ok ts) :
    ∃ ls, Writes cs ls ∧ ts = ls.flatMap Lexeme.tokens := by
  induction hlength : cs.length using Nat.strongRecOn generalizing cs ts with
  | ind n ih =>
      cases cs with
      | nil =>
          rw [expandPercent, expandPercentFrom, List.reverse_nil, tokens] at h
          cases h
          exact ⟨[], .nil, rfl⟩
      | cons c cs =>
          cases hc : Text.isBlank c with
          | true =>
              rw [expandPercent_cons (isMantissa_of_isBlank hc), tokens_blank hc] at h
              obtain ⟨ls, hls, rfl⟩ := ih cs.length (by simp [← hlength]) h rfl
              exact ⟨ls, .blank hc hls, rfl⟩
          | false =>
              obtain ⟨w, l, rest, us, hcs, hw, hpercent, rfl, hus⟩ := begins_of_tokens hc h
              have hpos := List.length_pos_iff.2 hw.ne_nil
              have hshorter : rest.length < n := by
                rw [← hlength, hcs, List.length_append]
                omega
              obtain ⟨ls, hls, rfl⟩ := ih rest.length hshorter hus rfl
              rw [hcs]
              exact ⟨l :: ls, .lexeme hw hpercent hls, rfl⟩

end TalkingCalculator
