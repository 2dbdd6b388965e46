import TalkingCalculator.Proofs.Hundredths
import TalkingCalculator.Proofs.Reseeding
import TalkingCalculator.Proofs.StablePreparation

namespace TalkingCalculator

open Grammar Input Lexer Number

theorem textTokens_of_isVisible {s : String} {ts : List Token}
    (hvisible : ∀ c ∈ s.toList, IsVisible c) (hne : s.toList ≠ [])
    (hsequence : isSequence (expandPercent s.toList) = true)
    (htokens : tokens (expandPercent s.toList) = .ok ts) :
    textTokens s = .ok ts := by
  rw [textTokens_eq_ok_iff, Text.trim_of_isVisible hvisible,
    replaceGlyphs_of_isVisible fun c hc => .inl (hvisible c hc)]
  exact ⟨mt expandPercent_eq_nil_iff.1 hne, hsequence, htokens⟩

theorem textTokens_of_minus {s : String} {negative : Bool} {cs : List Char} {ts : List Token}
    (h : s.toList = (if negative then ['-'] else []) ++ cs) (hvisible : ∀ c ∈ cs, IsVisible c)
    (hne : cs ≠ []) (hsequence : isSequence (expandPercent cs) = true)
    (htokens : tokens (expandPercent cs) = .ok ts) :
    textTokens s = .ok ((if negative then [.operator .sub] else []) ++ ts) := by
  cases negative with
  | false =>
      rw [if_neg (by decide), List.nil_append] at h
      rw [← h] at hvisible hne hsequence htokens
      exact textTokens_of_isVisible hvisible hne hsequence htokens
  | true =>
      have hexpand : expandPercent s.toList = '-' :: expandPercent cs := by
        rw [h]
        exact expandPercent_cons (by decide) cs
      refine textTokens_of_isVisible ?_ (by simp [h]) ?_ ?_
      · rw [h]
        exact List.forall_mem_cons.2 ⟨by decide, hvisible⟩
      · rw [hexpand, isSequence_cons (by decide), hsequence]
      · rw [hexpand, tokens_symbol (c := '-') rfl, htokens]
        rfl

def Tree.ofPercentage (negative : Bool) (x : Float) : Tree :=
  if negative then negate (hundredth x) else hundredth x

theorem Tree.inDegrees_ofPercentage (negative : Bool) (x : Float) :
    (ofPercentage negative x).inDegrees = ofPercentage negative x := by
  cases negative <;> rfl

theorem Tree.height_ofPercentage_le (negative : Bool) (x : Float) :
    (ofPercentage negative x).height ≤ maxHeight := by
  cases negative <;> exact of_decide_eq_true rfl

theorem Tree.value_ofPercentage (negative : Bool) {code : Nat} (h : code < Binary.double.infinity) :
    (ofPercentage negative (ofMagnitude false code)).value =
      .ok (toTwelvePlaces (ofMagnitude negative code / 100)) := by
  obtain ⟨quotient, hquotient, hdiv⟩ := exists_hundredth h
  have heval : (ofPercentage negative (ofMagnitude false code)).eval =
      ofMagnitude negative code / 100 := by
    cases negative with
    | false => rfl
    | true =>
        change -(ofMagnitude false code / 100) = _
        rw [hdiv, hdiv, neg_ofMagnitude false hquotient]
        rfl
  have hfinite : IsFinite (ofMagnitude negative code / 100) := by
    rw [hdiv]
    exact isFinite_ofMagnitude negative hquotient
  rw [value, heval, if_pos hfinite]

theorem parse_of_percentage {s : String} {negative : Bool} {m : Mantissa}
    (h : s.toList = (if negative then ['-'] else []) ++ (m.text ++ ['%'])) :
    parse s = .ok (Tree.ofPercentage negative (Numeral.value ⟨m, none⟩)) := by
  have hpercentage : Writes (m.text ++ ['%']) [.percentage (Numeral.value ⟨m, none⟩)] :=
    .of_spells (.percentage m)
  have hfactor :
      Derives Lexeme.token Lexeme.IsOperand .factor [.percentage (Numeral.value ⟨m, none⟩)]
      (.hundredth (Numeral.value ⟨m, none⟩)) := .ofAtom (.operand (.percentage _))
  have hall : ∃ ls, Writes s.toList ls ∧
      Lexeme.IsExpression ls (Tree.ofPercentage negative (Numeral.value ⟨m, none⟩)) := by
    rw [h]
    cases negative with
    | false => exact ⟨_, hpercentage, .ofProduct (.ofFactor hfactor)⟩
    | true => exact ⟨_, hpercentage.operator .sub, .ofProduct (.ofFactor (.minus hfactor))⟩
  obtain ⟨ls, hwrites, ht⟩ := hall
  rw [parse_of_writes (by rwa [replaceGlyphs_of_isVisible hwrites.isVisible]) ht]
  exact if_pos (Tree.height_ofPercentage_le negative _)

theorem Number.isScientific_eq {s : String} {negative : Bool} {n : Numeral}
    (h : s.toList = (if negative then ['-'] else []) ++ n.text) :
    isScientific s = n.exponent.isSome := by
  have hmantissa : 'e' ∉ n.mantissa.text :=
    not_mem_of_isMantissa (fun c hc => n.mantissa.isMantissa_of_mem hc) (by decide)
  rw [isScientific, h]
  cases he : n.exponent with
  | none => cases negative <;> simp [Numeral.text, he, hmantissa]
  | some e => cases negative <;> simp [Numeral.text, he, Exponent.text]

section Exponents

variable (e : Exponent)

theorem expandPercent_exponent_percent :
    expandPercent (e.text ++ ['%']) = 'e' :: (e.sign ++ asFraction e.digits) := by
  have htext : e.text ++ ['%'] = ('e' :: e.sign) ++ (e.digits ++ '%' :: []) := by
    simp [Exponent.text]
  rw [htext, expandPercent_append e.isMantissa_mark,
    expandPercent_percentage e.ne_nil e.isMantissa_digits, expandPercent_eq_nil_iff.2 rfl,
    List.append_nil, List.cons_append]

theorem splitExponent_exponent_percent :
    splitExponent (expandPercent (e.text ++ ['%'])) = ([], expandPercent (e.text ++ ['%'])) := by
  rw [expandPercent_exponent_percent]
  rcases e.sign_eq with h | h | h <;> rw [h] <;> rfl

theorem exists_tokens_of_exponent_percent :
    isSequence (expandPercent (e.text ++ ['%'])) = true ∧
      ∃ us, tokens (expandPercent (e.text ++ ['%'])) = .ok (.euler :: us) := by
  have hpercentage : Writes (e.digits ++ ['%'])
      [.percentage
        (Numeral.value ⟨⟨e.digits, none, by simpa using e.isDigit, by simpa using e.ne_nil⟩,
          none⟩)] := by
    have hwrites :=
      Writes.of_spells
        (.percentage ⟨e.digits, none, by simpa using e.isDigit, by simpa using e.ne_nil⟩)
    simpa [Mantissa.text] using hwrites
  -- The conversion stops at the constant, so which number stands after it does not matter.
  generalize Numeral.value _ = x at hpercentage
  have hall : ∃ ls, Writes (e.text ++ ['%']) (.token .euler :: ls) ∧
      (.token .euler :: ls).IsChain Lexeme.Separable := by
    have hoperator : ∀ op : BinaryOperator,
        (.token .euler :: [.token (.operator op), .percentage x]).IsChain Lexeme.Separable :=
      fun op => .cons_cons (Lexeme.separable_of_right rfl) (Lexeme.isChain_cons rfl (.singleton _))
    have heuler : ∀ {cs ls}, Writes cs ls → Writes ('e' :: cs) (.token .euler :: ls) :=
      fun h => .lexeme .euler (by simp [isMantissa]) h
    rcases e.sign_eq with h | h | h <;> rw [Exponent.text, h]
    · exact ⟨_, heuler hpercentage,
        .cons_cons (Lexeme.separable_of_isNumeral_eq_false rfl rfl) (.singleton _)⟩
    · exact ⟨_, heuler (hpercentage.operator .add), hoperator .add⟩
    · exact ⟨_, heuler (hpercentage.operator .sub), hoperator .sub⟩
  obtain ⟨ls, hwrites, hchain⟩ := hall
  exact ⟨isSequence_of_writes hwrites hchain, _, tokens_of_writes hwrites hchain⟩

theorem tokens_mantissa_exponent_percent (m : Mantissa) :
    isSequence (expandPercent (m.text ++ (e.text ++ ['%']))) = true ∧
      ∃ us, tokens (expandPercent (m.text ++ (e.text ++ ['%']))) =
        .ok (.number (Numeral.value ⟨m, none⟩) :: .euler :: us) := by
  obtain ⟨hsequence, us, hus⟩ := exists_tokens_of_exponent_percent e
  have hmantissa : ∀ c ∈ m.text, isMantissa c = true := fun c hc => m.isMantissa_of_mem hc
  have hexpand : expandPercent (m.text ++ (e.text ++ ['%'])) =
      m.text ++ expandPercent (e.text ++ ['%']) := by
    refine expandPercent_run hmantissa fun c hc => ?_
    obtain rfl : 'e' = c := by simpa [Exponent.text] using hc
    exact ⟨by decide, by simp⟩
  have hhead : ∀ c ∈ (expandPercent (e.text ++ ['%'])).head?, isMantissa c = false := by
    rw [expandPercent_exponent_percent]
    simp [isMantissa]
  have hvalue : numberToken (m.text ++ []) = .ok (.number (Numeral.value ⟨m, none⟩)) :=
    numberToken_text ⟨m, none⟩
  rw [hexpand]
  constructor
  · rw [isSequence_append fun c hc => isPermitted_of_isMantissa (hmantissa c hc), hsequence]
  · refine ⟨us, ?_⟩
    rw [tokens_numeral m.text_ne_nil hmantissa hhead, splitExponent_exponent_percent, hvalue, hus]
    rfl

end Exponents

theorem textTokens_of_exponent {s : String} {negative : Bool} {n : Numeral} {e : Exponent}
    (he : n.exponent = some e)
    (h : s.toList = (if negative then ['-'] else []) ++ (n.text ++ ['%'])) :
    ∃ x us, textTokens s =
      .ok ((if negative then [.operator .sub] else []) ++ .number x :: .euler :: us) := by
  have htext : n.text ++ ['%'] = n.mantissa.text ++ (e.text ++ ['%']) := by simp [Numeral.text, he]
  have hvisible : ∀ c ∈ n.text ++ ['%'], IsVisible c := by
    intro c hc
    rcases List.mem_append.1 hc with hc | hc
    · exact (Lexeme.Spells.numeral n).isVisible c hc
    · obtain rfl := List.mem_singleton.1 hc
      decide
  obtain ⟨hsequence, us, htokens⟩ := tokens_mantissa_exponent_percent e n.mantissa
  rw [← htext] at hsequence htokens
  exact ⟨_, us, textTokens_of_minus h hvisible (by simp) hsequence htokens⟩

theorem evaluate_of_exponent {s : String} {negative : Bool} {n : Numeral} {e : Exponent}
    (degrees : Bool) (he : n.exponent = some e)
    (h : s.toList = (if negative then ['-'] else []) ++ (n.text ++ ['%'])) :
    evaluate degrees s = .error (.failure .missingOperator) := by
  obtain ⟨x, us, htokens⟩ := textTokens_of_exponent he h
  have hordered :
      toPostfix ((if negative then [.operator .sub] else []) ++ .number x :: .euler :: us) =
        .error (.failure .missingOperator) := by
    cases negative <;> rfl
  rw [evaluate_eq, parse_eq_textTokens, htokens]
  change (toPostfix _ >>= _) >>= _ = _
  rw [hordered]
  rfl

/-- A percent sign after a value divides it by a hundred, unless the text of the value has an
exponent. -/
theorem percent_of_result {s : Session} {v : Float} (h : s.outcome = some (.ok v)) :
    (s.equals.1.press "%").1.outcome =
      some (if isScientific (text v) then .error (.failure .missingOperator)
        else .ok (toTwelvePlaces (v / 100))) := by
  obtain ⟨hbuffer, -, -, hdegrees, -⟩ := Session.equals_of_outcome h
  obtain ⟨x, hx, rfl⟩ := exists_of_evaluate (Session.outcome_eq_ok_iff.1 h)
  obtain ⟨negative, code, hcode, hlt, hzero⟩ := exists_code_of_toTwelvePlaces hx
  rw [hcode] at hbuffer ⊢
  obtain ⟨n, hn, hvalue⟩ := exists_numeral_of_text hlt hzero
  have hpressed : (s.equals.1.press "%").1.buffer.toList =
      (if negative then ['-'] else []) ++ (n.text ++ ['%']) := by
    change (s.equals.1.buffer ++ "%").toList = _
    rw [hbuffer, String.toList_append, hn, List.append_assoc]
    rfl
  rw [isScientific_eq hn]
  cases he : n.exponent with
  | some e => exact Session.outcome_of_failure (evaluate_of_exponent _ he hpressed)
  | none =>
      have hmantissa : n.text = n.mantissa.text := by simp [Numeral.text, he]
      have hnumeral : n = ⟨n.mantissa, none⟩ := by rw [← he]
      rw [hmantissa] at hpressed
      have hparse := parse_of_percentage hpressed
      rw [← hnumeral, hvalue] at hparse
      refine Session.outcome_eq_ok_iff.2 ?_
      rw [evaluate_of_parse _ hparse, Tree.inDegrees_ofPercentage, ite_self,
        Tree.value_ofPercentage negative hlt]

theorem percent_of_result_negative :
    ∃ (s : Session) (v : Float), s = ((Session.start ⟨.english, false, true⟩).enter "1-3.5").1 ∧
      s.outcome = some (.ok v) ∧ text v = "-2.5" ∧
      (s.equals.1.press "%").1.outcome = some (.ok (-0.025)) := by
  have houtcome : ((Session.start ⟨.english, false, true⟩).enter "1-3.5").1.outcome =
      some (.ok (-2.5)) := by decide +kernel
  have htext : text (-2.5) = "-2.5" := by decide +kernel
  have hvalue : toTwelvePlaces (-2.5 / 100) = -0.025 := by decide +kernel
  have hpercent := percent_of_result houtcome
  rw [htext, if_neg (by decide), hvalue] at hpercent
  exact ⟨_, _, rfl, houtcome, htext, hpercent⟩

/-- The percent sign after a value in scientific notation only takes the exponent, and no value is
left. -/
theorem percent_of_scientific_result :
    ∃ s, s = ((Session.start ⟨.english, false, true⟩).enter "1000000000000*1000000000").1 ∧
      s.outcome = some (.ok 1e21) ∧ (s.equals.1.press "%").1.buffer = "1e+21%" ∧
      (s.equals.1.press "%").1.outcome = some (.error (.failure .missingOperator)) :=
  ⟨_, rfl, by decide +kernel, by decide +kernel, by decide +kernel⟩

end TalkingCalculator
