import TalkingCalculator.Proofs.MemoryRegister

namespace TalkingCalculator

open Input Lexer Number Conversion

/-- Whether the last character of a text, blanks aside, is neither a percent sign nor the glyph of
the constant. -/
def Buffer.EndsPlainly (b : String) : Prop :=
  ∀ c ∈ (Text.trimEnd b.toList).getLast?, c ≠ '%' ∧ c ≠ 'π'

theorem Buffer.endsWithValue_of_not_endsPlainly {b : String} (h : ¬ EndsPlainly b) :
    endsWithValue b.toList = false := by
  simp only [EndsPlainly, not_forall] at h
  obtain ⟨c, hc, hend⟩ := h
  obtain ⟨kept, hkept⟩ := List.getLast?_eq_some_iff.1 hc
  rw [Bool.eq_false_iff, Ne, endsWithValue_iff hkept]
  have hsign : c = '%' ∨ c = 'π' := by
    by_contra hno
    exact hend (not_or.1 hno)
  rcases hsign with rfl | rfl <;> simp [isMantissa]

namespace Conversion

variable {c : Conversion}

theorem afterValue_of_finish {ts : List Token} (h : c.finish = .ok ts) :
    c.afterValue = true ∧ c.awaitsParenthesis = false := by
  obtain ⟨output, ops, ps, value, name⟩ := c
  cases name with
  | true => cases h
  | false =>
      cases value with
      | true => exact ⟨rfl, rfl⟩
      | false => cases h

theorem exists_fault_of_recallsAs {cs : List Char} {ts : List Token} {t : Tree}
    (h : RecallsAs cs ts t) (hvalue : c.afterValue = true) (hname : c.awaitsParenthesis = false) :
    ∃ cause, ts.foldlM step c = .error (.failure cause) := by
  cases h with
  | plain n => exact ⟨.missingOperator, by simp [step, push, hvalue, hname, bind, Except.bind]⟩
  | enclosed n | negative n =>
      exact ⟨.missingOperatorBeforeParenthesis, by simp [step, hvalue, hname, bind, Except.bind]⟩

end Conversion

theorem exists_writes_of_evaluate {degrees : Bool} {b : String} {v : Float}
    (h : evaluate degrees b = .ok v) :
    ∃ ls l c, Writes (replaceGlyphs b.toList) (ls ++ [l]) ∧ (ls ++ [l]).IsChain Lexeme.Separable ∧
      l.closesValue = true ∧ ((ls ++ [l]).flatMap Lexeme.tokens).foldlM step .start = .ok c ∧
      c.afterValue = true ∧ c.awaitsParenthesis = false := by
  rw [evaluate_eq_evaluateTokens] at h
  obtain ⟨ts, htokens, hvalue⟩ := exists_of_bind_eq_ok h
  obtain ⟨all, hwrites, rfl⟩ := exists_writes_of_textTokens htokens
  obtain ⟨ordered, hordered, -⟩ := exists_of_bind_eq_ok hvalue
  obtain ⟨t, ht, -⟩ := exists_looselyDerives_of_toPostfix hordered
  obtain ⟨ls, l, rfl, hl⟩ := Lexeme.closesValue_of_looselyDerives ht
  obtain ⟨c, hrun, hfinish⟩ := exists_of_bind_eq_ok hordered
  exact ⟨ls, l, c, hwrites, Lexeme.isChain_of_looselyDerives ht, hl, hrun,
    afterValue_of_finish hfinish⟩

/-- A number appended to a complete expression makes it invalid where the buffer was not taken to
end with a value. -/
theorem exists_fault_of_append_operand {degrees : Bool} {b : String} {v x : Float}
    (hvalue : evaluate degrees b = .ok v) (hx : IsFinite x)
    (hend : Buffer.endsWithValue b.toList = false) :
    ∃ cause, evaluate degrees (b ++ Buffer.operand (text x)) = .error (.failure cause) := by
  obtain ⟨ls, l, c, hwrites, hchain, hl, hrun, hafter, hname⟩ := exists_writes_of_evaluate hvalue
  obtain ⟨t, hrecalls, -⟩ := exists_recallsAs_operand hx
  obtain ⟨cause, hcause⟩ := exists_fault_of_recallsAs hrecalls hafter hname
  -- A numeral would have been taken for a value, so the lexemes of the operand cannot merge with
  -- the last one.
  obtain ⟨kept, d, -, hd | ⟨hnumeral, -⟩⟩ := Buffer.exists_last_of_closesValue hwrites hl
  · rw [hend] at hd
    cases hd
  · have hlast : ∀ m ∈ (ls ++ [l]).getLast?, m.isNumeral = false := by
      intro m hm
      obtain rfl : l = m := by simpa using hm
      exact hnumeral
    refine ⟨cause, ?_⟩
    rw [evaluate_of_textTokens degrees (textTokens_append_operand hwrites hchain hlast hrecalls),
      evaluateTokens, toPostfix, foldlM_step_append hrun, hcause]
    rfl

/-- After a complete expression a recalled memory takes its place exactly if the expression does not
end with a percent sign or the glyph of the constant. Otherwise the expression becomes invalid. -/
theorem recalled_value {preferences : Preferences} {commands : List Command} {s : Session}
    {v : Float} (hs : s = ((Session.start preferences).run commands).1)
    (hfinite : IsFinite s.memory) (hvalue : s.outcome = some (.ok v)) :
    (Buffer.EndsPlainly s.buffer →
      (s.act .recallMemory).1.buffer = text s.memory ∧
      (s.act .recallMemory).1.outcome = some (.ok s.memory) ∧
        (s.act .recallMemory).1.equals.1.lastValue = some s.memory) ∧
      (¬ Buffer.EndsPlainly s.buffer →
        (s.act .recallMemory).1.buffer = s.buffer ++ Buffer.operand (text s.memory) ∧
          ∃ cause, (s.act .recallMemory).1.outcome = some (.error (.failure cause))) := by
  have hrounded : s.Rounded := by
    rw [hs]
    exact (Session.Rounded.start preferences).run commands
  have hbuffer := s.buffer_recallMemory
  have hevaluate := Session.outcome_eq_ok_iff.1 hvalue
  constructor
  · intro hplainly
    obtain ⟨ls, l, c, hwrites, -, hl, -⟩ := exists_writes_of_evaluate hevaluate
    obtain ⟨kept, d, hkept, hend | ⟨-, hsign⟩⟩ := Buffer.exists_last_of_closesValue hwrites hl
    · rw [Buffer.recalled, hend] at hbuffer
      have houtcome : (s.act .recallMemory).1.outcome = some (.ok s.memory) := by
        rw [Session.outcome_eq_ok_iff, Session.degrees_recallMemory, hbuffer]
        exact (hrounded.evaluate_text_iff s.degrees (.inl rfl)).2 hfinite
      exact ⟨hbuffer, houtcome, (Session.equals_of_outcome houtcome).2.1⟩
    · obtain ⟨hpercent, hpi⟩ := hplainly d (by rw [hkept]; simp)
      exact absurd hsign (not_or.2 ⟨hpercent, hpi⟩)
  · intro hglyph
    have hend := Buffer.endsWithValue_of_not_endsPlainly hglyph
    obtain ⟨cause, hcause⟩ := exists_fault_of_append_operand hevaluate hfinite hend
    rw [Buffer.recalled, hend] at hbuffer
    refine ⟨hbuffer, cause, Session.outcome_of_failure ?_⟩
    rw [Session.degrees_recallMemory, hbuffer]
    exact hcause

theorem recalled_value_parentheses :
    ∃ s, s =
      ((Session.start ⟨.english, false, true⟩).run [.enter "3", .act .subtractFromMemory,
        .enter "2×(1+3) "]).1 ∧
      IsFinite s.memory ∧ s.outcome = some (.ok 8) ∧ Buffer.EndsPlainly s.buffer ∧
      text s.memory = "-3" ∧ (s.act .recallMemory).1.buffer = text s.memory ∧
      (s.act .recallMemory).1.outcome = some (.ok s.memory) := by
  refine ⟨_, rfl, ?_⟩
  have hfinite : IsFinite ((Session.start ⟨.english, false, true⟩).run
      [.enter "3", .act .subtractFromMemory, .enter "2×(1+3) "]).1.memory := by decide +kernel
  have houtcome : ((Session.start ⟨.english, false, true⟩).run
      [.enter "3", .act .subtractFromMemory, .enter "2×(1+3) "]).1.outcome = some (.ok 8) := by
        decide +kernel
  have hplainly : Buffer.EndsPlainly "2×(1+3) " := by
    have hlast : (Text.trimEnd "2×(1+3) ".toList).getLast? = some ')' := by decide +kernel
    intro c hc
    rw [hlast] at hc
    obtain rfl := Option.some.inj hc
    decide
  obtain ⟨hbuffer, hrecalled, -⟩ := (recalled_value rfl hfinite houtcome).1 hplainly
  exact ⟨hfinite, houtcome, hplainly, by decide +kernel, hbuffer, hrecalled⟩

/-- After a percentage the memory is appended, and what was an expression is none any more. -/
theorem recall_after_percentage :
    ∃ s, s =
      ((Session.start ⟨.english, false, true⟩).run [.enter "3", .act .addToMemory,
        .enter "200%"]).1 ∧
      IsFinite s.memory ∧ s.outcome = some (.ok 2) ∧ text s.memory = "3" ∧
      (s.act .recallMemory).1.buffer = "200%3" ∧
      (s.act .recallMemory).1.outcome = some (.error (.failure .missingOperator)) :=
  ⟨_, rfl, by decide +kernel, by decide +kernel, by decide +kernel, by decide +kernel,
    by decide +kernel⟩

end TalkingCalculator
