import TalkingCalculator.Proofs.BufferEnds
import TalkingCalculator.Proofs.OperandReplacement
import TalkingCalculator.Proofs.Reseeding

namespace TalkingCalculator

open Input Lexer Number Conversion

/-- The number that is shown for a number: zero has no sign. -/
def Number.written (x : Float) : Float :=
  if magnitude x = 0 then zero else x

/-- The tokens of a recalled number: in parentheses if it has a sign or an exponent. -/
def operandTokens (x : Float) : List Token :=
  if isNegative (written x) then [.opening, .operator .sub, .number (-written x), .closing]
  else if isScientific (text x) then [.opening, .number (written x), .closing]
  else [.number (written x)]

/-- `AwaitsOperand b ts` says that the text `b` is blank, or that it has the tokens `ts` and some
expression goes on from them with a number. -/
def AwaitsOperand (b : String) (ts : List Token) : Prop :=
  Text.IsBlank b ∧ ts = [] ∨
    textTokens b = .ok ts ∧ ∃ x us ordered, toPostfix (ts ++ .number x :: us) = .ok ordered

namespace Number

variable {x : Float}

theorem not_isUndefined (h : IsFinite x) : ¬ IsUndefined x := by
  intro hundefined
  exact Nat.lt_asymm h hundefined

theorem written_of_isFinite (h : IsFinite x) :
    ∃ negative code, code < Binary.double.infinity ∧ (code = 0 → negative = false) ∧
      written x = ofMagnitude negative code ∧ text x = text (ofMagnitude negative code) := by
  by_cases hzero : magnitude x = 0
  · refine ⟨false, 0, by decide, fun _ => rfl, if_pos hzero, ?_⟩
    have htext : text (ofMagnitude false 0) = "0" := by decide +kernel
    rw [text, if_neg (not_isUndefined h), if_neg (not_not_intro h), if_pos hzero, htext]
  · refine ⟨isNegative x, magnitude x, h, fun hcode => absurd hcode hzero, ?_, ?_⟩
    · rw [written, if_neg hzero, ofMagnitude_magnitude]
    · rw [ofMagnitude_magnitude]

end Number

/-- `RecallsAs cs ts t` says that the characters `cs` are those of a recalled number, with the
tokens `ts` and the tree `t`. -/
inductive RecallsAs : List Char → List Token → Tree → Prop
  | plain (n : Numeral) : RecallsAs n.text [.number n.value] (.number n.value)
  | enclosed (n : Numeral) :
      RecallsAs ('(' :: (n.text ++ [')'])) [.opening, .number n.value, .closing] (.number n.value)
  | negative (n : Numeral) :
      RecallsAs ('(' :: '-' :: (n.text ++ [')'])) [.opening, .operator .sub, .number n.value,
        .closing]
        (.negate (.number n.value))

namespace RecallsAs

variable {cs : List Char} {ts : List Token} {t : Tree}

theorem writes (h : RecallsAs cs ts t) : Writes cs (ts.map .token) := by
  have hend : Writes [')'] [.token .closing] := .of_spells .closing
  have hnumeral : ∀ n : Numeral,
      Writes (n.text ++ [')']) [.token (.number n.value), .token .closing] :=
    fun n => .lexeme (.numeral n) (by simp) hend
  cases h with
  | plain n => exact .of_spells (.numeral n)
  | enclosed n => exact .lexeme .opening (by simp [isMantissa]) (hnumeral n)
  | negative n => exact .lexeme .opening (by simp) ((hnumeral n).operator .sub)

theorem head?_ne (h : RecallsAs cs ts t) : cs.head? ≠ some '%' := by
  cases h with
  | plain n =>
      intro hhead
      exact absurd (Mantissa.isMantissa_head hhead) (by decide)
  | enclosed n | negative n => simp

theorem isChain (h : RecallsAs cs ts t) : (ts.map Lexeme.token).IsChain Lexeme.Separable := by
  cases h with
  | plain n => exact .singleton _
  | enclosed n => exact Lexeme.isChain_cons rfl (Lexeme.isChain_append_cons rfl (.singleton _) .nil)
  | negative n =>
      exact Lexeme.isChain_cons
        rfl (Lexeme.isChain_cons rfl (Lexeme.isChain_append_cons rfl (.singleton _) .nil))

theorem ne_nil (h : RecallsAs cs ts t) : ts ≠ [] := by
  cases h <;> simp

theorem isChain_append {ls : List Lexeme} (h : RecallsAs cs ts t)
    (hls : ls.IsChain Lexeme.Separable) (hlast : ∀ l ∈ ls.getLast?, l.isNumeral = false) :
    (ls ++ ts.map Lexeme.token).IsChain Lexeme.Separable := by
  rw [List.isChain_append]
  refine ⟨hls, h.isChain, fun l hl m hm => ⟨fun _ => ?_, fun hnumeral => ?_⟩⟩
  · cases h <;> obtain rfl := Option.some.inj hm <;> rfl
  · rw [hlast l hl] at hnumeral
    cases hnumeral

theorem supplies (h : RecallsAs cs ts t) : Supplies ts t := by
  have hnumber : ∀ x : Float, Grammar.Derives id Token.IsOperand .factor [.number x] (.number x) :=
    fun x => .ofAtom (.operand (.number x))
  cases h with
  | plain n => exact supplies_operand (.number _)
  | enclosed n => exact (reads_of_derives (.ofProduct (.ofFactor (hnumber _)))).supplies_parentheses
  | negative n =>
      exact (reads_of_derives (.ofProduct (.ofFactor (.minus (hnumber _))))).supplies_parentheses

end RecallsAs

theorem sameValue_negate {x y : Float} (h : -y = x) :
    (Tree.number x).SameValue (.negate (.number y)) := by
  constructor
  · exact h
  · exact h
  · exact Nat.le_succ 1
  · exact Nat.le_refl 2

theorem exists_recallsAs_operand {x : Float} (h : IsFinite x) :
    ∃ t, RecallsAs (Buffer.operand (text x)).toList (operandTokens x) t ∧
      (Tree.number (written x)).SameValue t ∧
      (isNegative (written x) = false → t = .number (written x)) := by
  obtain ⟨negative, code, hcode, hzero, hwritten, htext⟩ := written_of_isFinite h
  obtain ⟨n, hn, hvalue⟩ := exists_numeral_of_text hcode hzero
  rw [← htext] at hn
  have hsign : isNegative (written x) = negative := by
    rw [hwritten, isNegative_ofMagnitude negative hcode]
  cases negative with
  | true =>
      have hneg : -written x = n.value := by rw [hwritten, neg_ofMagnitude true hcode, hvalue]; rfl
      have hback : -n.value = written x := by
        rw [hvalue, neg_ofMagnitude false hcode, hwritten]; rfl
      have htokens : operandTokens x = [.opening, .operator .sub, .number n.value, .closing] := by
        rw [operandTokens, if_pos hsign, hneg]
      have hoperand : (Buffer.operand (text x)).toList = '(' :: '-' :: (n.text ++ [')']) := by
        rw [Buffer.operand, if_pos (.inl (by simp [hn]))]
        simp [hn]
      rw [htokens, hoperand]
      exact ⟨_, .negative n, sameValue_negate hback, fun hpositive => by simp [hsign] at hpositive⟩
  | false =>
      have hminus : (text x).toList.head? ≠ some '-' := by
        intro hhead
        rw [hn] at hhead
        exact absurd (Mantissa.isMantissa_head hhead) (by decide)
      have hnumber : written x = n.value := by rw [hwritten, hvalue]
      have htokens : operandTokens x =
          if isScientific (text x) then
            [.opening, .number n.value, .closing] else [.number n.value] := by
        rw [operandTokens, if_neg (by simp [hsign]), hnumber]
      rw [htokens, hnumber, Buffer.operand]
      by_cases hscientific : isScientific (text x) = true
      · rw [if_pos hscientific, if_pos (.inr hscientific)]
        refine ⟨_, ?_, .refl _, fun _ => rfl⟩
        simpa [hn] using RecallsAs.enclosed n
      · rw [if_neg hscientific, if_neg (not_or.2 ⟨hminus, hscientific⟩)]
        refine ⟨_, ?_, .refl _, fun _ => rfl⟩
        simpa [hn] using RecallsAs.plain n

theorem evaluate_eq_evaluateTokens (degrees : Bool) (s : String) :
    evaluate degrees s = textTokens s >>= evaluateTokens degrees := by
  rw [evaluate_eq, parse_eq_textTokens, bind_assoc]
  refine bind_congr fun ts => ?_
  rw [bind_assoc]
  rfl

theorem evaluate_of_textTokens (degrees : Bool) {s : String} {ts : List Token}
    (h : textTokens s = .ok ts) :
    evaluate degrees s = evaluateTokens degrees ts := by
  rw [evaluate_eq_evaluateTokens, h]
  rfl

theorem textTokens_append_operand {b : String} {ls : List Lexeme} {x : Float} {t : Tree}
    (h : Writes (replaceGlyphs b.toList) ls) (hls : ls.IsChain Lexeme.Separable)
    (hlast : ∀ l ∈ ls.getLast?, l.isNumeral = false)
    (hrecalls : RecallsAs (Buffer.operand (text x)).toList (operandTokens x) t) :
    textTokens (b ++ Buffer.operand (text x)) =
      .ok (ls.flatMap Lexeme.tokens ++ operandTokens x) := by
  have hwrites : Writes (replaceGlyphs (b ++ Buffer.operand (text x)).toList)
      (ls ++ (operandTokens x).map Lexeme.token) := by
    rw [String.toList_append, replaceGlyphs_append,
      replaceGlyphs_of_isVisible hrecalls.writes.isVisible]
    exact h.append hrecalls.writes hrecalls.head?_ne
  rw [textTokens_of_writes hwrites (hrecalls.isChain_append hls hlast) (by simp [hrecalls.ne_nil]),
    List.flatMap_append, Lexeme.flatMap_tokens_map_token]

theorem evaluate_operand (degrees : Bool) {x : Float} (h : IsFinite x) :
    evaluate degrees (Buffer.operand (text x)) = (Tree.number (written x)).value := by
  obtain ⟨t, hrecalls, hsame, -⟩ := exists_recallsAs_operand h
  have htokens := textTokens_append_operand (b := "") .nil .nil (by simp) hrecalls
  rw [String.empty_append, List.flatMap_nil, List.nil_append] at htokens
  have hheight : t.height ≤ maxHeight := Nat.le_trans hsame.le_height (show 2 ≤ maxHeight by decide)
  rw [evaluate_of_textTokens degrees htokens,
    evaluateTokens_of_toPostfix degrees hrecalls.supplies.toPostfix_eq, if_pos hheight,
    hsame.value]
  cases degrees <;> rfl

theorem written_toTwelvePlaces {x : Float} (h : IsFinite x) :
    written (toTwelvePlaces x) = toTwelvePlaces x := by
  obtain ⟨negative, code, hcode, hlt, hzero⟩ := exists_code_of_toTwelvePlaces h
  rw [hcode, written, magnitude_ofMagnitude negative hlt]
  split
  · next hcode =>
      rw [hzero hcode, hcode]
      rfl
  · rfl

theorem Lexeme.isNumeral_of_awaitsOperand {l : Lexeme} (h : l.awaitsOperand = true) :
    l.isNumeral = false := by
  cases l with
  | percentage x => cases h
  | token t => cases t <;> first | rfl | cases h

theorem ready_of_step_number {c c' : Conversion} {x : Float} (h : c.step (.number x) = .ok c') :
    c.Ready := by
  obtain ⟨output, ops, ps, value, name⟩ := c
  cases name with
  | true => cases h
  | false =>
      cases value with
      | true => cases h
      | false => exact ⟨rfl, rfl⟩

/-- Where an operand is awaited, the lexemes so far can stand as they are, and the conversion is
ready for an operand. -/
theorem AwaitsOperand.exists_writes {b : String} {ts : List Token} (h : AwaitsOperand b ts) :
    ∃ ls c, Writes (replaceGlyphs b.toList) ls ∧ ts = ls.flatMap Lexeme.tokens ∧
      ls.IsChain Lexeme.Separable ∧ ts.foldlM step .start = .ok c ∧ c.Ready := by
  rcases h with ⟨hblank, rfl⟩ | ⟨htokens, x, us, ordered, hordered⟩
  · refine ⟨[], .start, ?_, rfl, .nil, rfl, rfl, rfl⟩
    rw [replaceGlyphs_of_isVisible fun c hc => .inr (hblank c hc)]
    exact .of_forall_isBlank hblank
  · obtain ⟨ls, hwrites, rfl⟩ := exists_writes_of_textTokens htokens
    have hall : ls.flatMap Lexeme.tokens ++ .number x :: us =
        (ls ++ (.number x :: us).map Lexeme.token).flatMap Lexeme.tokens := by
      rw [List.flatMap_append, Lexeme.flatMap_tokens_map_token]
    -- The lexemes of the completed list are separable, as it has a derivation, and so are those
    -- before the number.
    obtain ⟨t, ht, -⟩ := exists_looselyDerives_of_toPostfix (hall ▸ hordered)
    obtain ⟨last, hrun, -⟩ := exists_of_bind_eq_ok hordered
    obtain ⟨c, hbefore, hafter⟩ := exists_of_foldlM_step_append hrun
    rw [List.foldlM_cons] at hafter
    obtain ⟨c', hstep, -⟩ := exists_of_bind_eq_ok hafter
    exact ⟨ls, c, hwrites, rfl, (Lexeme.isChain_of_looselyDerives ht).left_of_append, hbefore,
      ready_of_step_number hstep⟩

@[simp] theorem Session.degrees_recallMemory (s : Session) :
    (s.act .recallMemory).1.degrees = s.degrees :=
  rfl

@[simp] theorem Session.buffer_recallMemory (s : Session) :
    (s.act .recallMemory).1.buffer = Buffer.recalled s.buffer (text s.memory) :=
  rfl

theorem textTokens_recalled {s : Session} {ls : List Lexeme} (hfinite : IsFinite s.memory)
    (h : Writes (replaceGlyphs s.buffer.toList) ls) (hls : ls.IsChain Lexeme.Separable)
    (hlast : ∀ l ∈ ls.getLast?, l.awaitsOperand = true) :
    textTokens (s.act .recallMemory).1.buffer =
      .ok (ls.flatMap Lexeme.tokens ++ operandTokens s.memory) := by
  obtain ⟨t, hrecalls, -⟩ := exists_recallsAs_operand hfinite
  rw [Session.buffer_recallMemory, Buffer.recalled, Buffer.endsWithValue_of_awaitsOperand h hlast]
  exact textTokens_append_operand h hls (fun l hl =>
    Lexeme.isNumeral_of_awaitsOperand (hlast l hl)) hrecalls

/-- A recalled memory is one operand with the value of the memory. The sign of a negative one is a
level of the tree of its own, and only where this makes the tree too high does the outcome differ
from that of the number. -/
theorem recalled_operand {s : Session} {ts : List Token} (hfinite : IsFinite s.memory)
    (hawaits : AwaitsOperand s.buffer ts) :
    textTokens (s.act .recallMemory).1.buffer = .ok (ts ++ operandTokens s.memory) ∧
      ∀ (degrees : Bool) (r : String) (vs : List Token),
        textTokens r = .ok (ts ++ (operandTokens s.memory ++ vs)) →
          (evaluate degrees r = .error (.failure .nestedTooDeeply) ↔
            IsTooDeep (ts ++ (operandTokens s.memory ++ vs))) ∧
          (evaluate degrees r = evaluateTokens degrees (ts ++ .number (written s.memory) :: vs) ↔
            (IsTooDeep (ts ++ (operandTokens s.memory ++ vs)) →
              IsTooDeep (ts ++ .number (written s.memory) :: vs))) ∧
          (isNegative (written s.memory) = false →
            (IsTooDeep (ts ++ (operandTokens s.memory ++ vs)) ↔
              IsTooDeep (ts ++ .number (written s.memory) :: vs))) := by
  obtain ⟨ls, c, hwrites, rfl, hchain, hrun, hready⟩ := hawaits.exists_writes
  obtain ⟨t, hrecalls, hsame, hplain⟩ := exists_recallsAs_operand hfinite
  refine ⟨textTokens_recalled hfinite hwrites hchain (awaitsOperand_of_ready hrun hready), ?_⟩
  intro degrees r vs htokens
  rw [evaluate_of_textTokens degrees htokens]
  refine ⟨evaluateTokens_eq_nestedTooDeeply_iff, ?_, fun hsign => ?_⟩
  · exact evaluateTokens_eq_iff_of_supplies hrun hready hrecalls.supplies hsame degrees vs
  · have hsupplies := hrecalls.supplies
    rw [hplain hsign] at hsupplies
    rw [IsTooDeep, IsTooDeep, toPostfix_of_supplies_number hrun hready hsupplies vs]

theorem recalled_operand_negative :
    ∃ s, s =
      ((Session.start ⟨.english, false, true⟩).run [.enter "3", .act .subtractFromMemory,
        .enter "5 × "]).1 ∧
      IsFinite s.memory ∧ AwaitsOperand s.buffer [.number 5, .operator .mul] ∧
      (s.act .recallMemory).1.buffer = "5 × (-3)" ∧
      textTokens (s.act .recallMemory).1.buffer =
        .ok [.number 5, .operator .mul, .opening, .operator .sub, .number 3, .closing] ∧
      evaluate false "5 × (-3)+1" =
        evaluateTokens false [.number 5, .operator .mul, .number s.memory, .operator .add,
          .number 1] := by
  refine ⟨_, rfl, ?_⟩
  generalize hs :
    ((Session.start ⟨.english, false, true⟩).run [.enter "3", .act .subtractFromMemory,
      .enter "5 × "]).1 = s
  have hmemory : s.memory = ofMagnitude true (Binary.double.nearest 3 1) := by
    rw [← hs]
    decide +kernel
  have hbuffer : s.buffer = "5 × " := by
    rw [← hs]
    decide +kernel
  have hfinite : IsFinite s.memory := by
    rw [hmemory]
    decide +kernel
  have hwritten : written s.memory = s.memory := by
    rw [hmemory]
    decide +kernel
  have htokens : operandTokens s.memory = [.opening, .operator .sub, .number 3, .closing] := by
    rw [hmemory]
    decide +kernel
  have hawaits : AwaitsOperand s.buffer [.number 5, .operator .mul] := by
    rw [hbuffer]
    exact .inr ⟨by decide +kernel, 1, [], [.number 5, .number 1, .operator .mul], by decide +kernel⟩
  have hrecalled : (s.act .recallMemory).1.buffer = "5 × (-3)" := by
    rw [Session.buffer_recallMemory, hbuffer, hmemory]
    decide +kernel
  obtain ⟨hbefore, hafter⟩ := recalled_operand hfinite hawaits
  rw [htokens] at hbefore hafter
  refine ⟨hfinite, hawaits, hrecalled, hbefore, ?_⟩
  obtain ⟨hdeep, heq, -⟩ :=
    hafter false "5 × (-3)+1" [.operator .add, .number 1] (by decide +kernel)
  rw [hwritten] at heq
  refine heq.2 fun htoo => ?_
  have hvalue : evaluate false "5 × (-3)+1" =
      .ok (ofMagnitude true (Binary.double.nearest 14 1)) := by
    decide +kernel
  rw [hdeep.2 htoo] at hvalue
  cases hvalue

theorem writes_minuses (n : Nat) :
    Writes (List.replicate n '-') (List.replicate n (.token (.operator .sub))) := by
  induction n with
  | zero => exact .nil
  | succ n ih => exact .lexeme (.operator .sub) (by simp [isMantissa, BinaryOperator.symbol]) ih

theorem textTokens_minuses {s : Session} {n : Nat} (hfinite : IsFinite s.memory)
    (hbuffer : s.buffer = String.ofList (List.replicate (n + 1) '-')) :
    textTokens s.buffer = .ok (List.replicate (n + 1) (.operator .sub)) ∧
      textTokens (s.act .recallMemory).1.buffer =
        .ok (List.replicate (n + 1) (.operator .sub) ++ operandTokens s.memory) := by
  have hwrites : Writes (replaceGlyphs s.buffer.toList)
      (List.replicate (n + 1) (.token (.operator .sub))) := by
    have hminuses := writes_minuses (n + 1)
    rw [hbuffer, String.toList_ofList, replaceGlyphs_of_isVisible hminuses.isVisible]
    exact hminuses
  have hchain : (List.replicate (n + 1) (Lexeme.token (.operator .sub))).IsChain Lexeme.Separable :=
    List.isChain_replicate_of_rel (n + 1) (Lexeme.separable_of_left rfl)
  have htokens : (List.replicate (n + 1) (Lexeme.token (.operator .sub))).flatMap Lexeme.tokens =
      List.replicate (n + 1) (.operator .sub) := by
    rw [← List.map_replicate, Lexeme.flatMap_tokens_map_token]
  rw [← htokens]
  refine ⟨textTokens_of_writes hwrites hchain (by simp),
    textTokens_recalled hfinite hwrites hchain ?_⟩
  intro l hl
  obtain rfl := List.eq_of_mem_replicate (List.mem_of_getLast? hl)
  rfl

/-- Under so many minus signs a number is as deep as permitted, and a negative memory, being a
negation itself, is too deep. -/
theorem recalled_operand_too_deep :
    ∃ s ts, s = ((Session.start ⟨.english, false, true⟩).run
        [.enter "3", .act .subtractFromMemory, .enter (String.ofList (List.replicate 255 '-'))]).1 ∧
      ts = List.replicate 255 (Token.operator .sub) ∧ IsFinite s.memory ∧
      AwaitsOperand s.buffer ts ∧ text s.memory = "-3" ∧
      evaluateTokens false (ts ++ [.number s.memory]) = .ok 3 ∧
      (s.act .recallMemory).1.outcome = some (.error (.failure .nestedTooDeeply)) := by
  refine ⟨_, _, rfl, rfl, ?_⟩
  generalize hs : ((Session.start ⟨.english, false, true⟩).run
    [.enter "3", .act .subtractFromMemory, .enter (String.ofList (List.replicate 255 '-'))]).1 = s
  have hmemory : s.memory = ofMagnitude true (Binary.double.nearest 3 1) := by
    rw [← hs]
    decide +kernel
  have hbuffer : s.buffer = String.ofList (List.replicate 255 '-') := by
    rw [← hs]
    rfl
  have hdegrees : s.degrees = false := by
    rw [← hs]
    decide +kernel
  have hfinite : IsFinite s.memory := by
    rw [hmemory]
    decide +kernel
  have hoperand : operandTokens s.memory = [.opening, .operator .sub, .number 3, .closing] := by
    rw [hmemory]
    decide +kernel
  obtain ⟨htokens, hrecalled⟩ := textTokens_minuses hfinite hbuffer
  refine ⟨hfinite,
    .inr ⟨htokens, 3, [], .number 3 :: List.replicate 255 .negation, by decide +kernel⟩, ?_, ?_, ?_⟩
  · rw [hmemory]
    decide +kernel
  · rw [hmemory]
    decide +kernel
  · apply Session.outcome_of_failure
    rw [evaluate_of_textTokens _ hrecalled, Session.degrees_recallMemory, hoperand, hdegrees]
    decide +kernel

end TalkingCalculator
