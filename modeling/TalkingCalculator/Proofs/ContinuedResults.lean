import TalkingCalculator.Proofs.RecalledOperands
import TalkingCalculator.Proofs.StablePreparation

namespace TalkingCalculator

open Input Lexer Number Conversion

namespace Text

variable {p : Char → Bool}

theorem dropEndWhile_append (cs : List Char) {ds : List Char} (hds : dropEndWhile p ds ≠ []) :
    dropEndWhile p (cs ++ ds) = cs ++ dropEndWhile p ds := by
  have hne : (ds.reverse.dropWhile p).isEmpty = false := by
    rw [List.isEmpty_eq_false_iff]
    exact mt List.reverse_eq_nil_iff.2 hds
  rw [dropEndWhile, List.reverse_append, List.dropWhile_append, if_neg (by simp [hne]),
    List.reverse_append, List.reverse_reverse, ← dropEndWhile]

theorem dropEndWhile_cons {c : Char} (hc : p c = false) (cs : List Char) :
    dropEndWhile p (c :: cs) = c :: dropEndWhile p cs := by
  by_cases hnil : dropEndWhile p cs = []
  · have hrun := List.rdropWhile_eq_nil_iff.1 hnil
    rw [hnil]
    have hlast : ∀ d ∈ [c].getLast?, p d = false := by simpa using hc
    exact dropEndWhile_append_run hlast hrun
  · exact dropEndWhile_append [c] hnil

theorem trim_append {cs ds : List Char} (hne : cs ≠ []) (hhead : ∀ c ∈ cs.head?, isBlank c = false)
    (hds : trimEnd ds ≠ []) :
    trim (cs ++ ds) = cs ++ trimEnd ds := by
  obtain ⟨c, cs, rfl⟩ := List.exists_cons_of_ne_nil hne
  have hstart : (c :: cs ++ ds).dropWhile isBlank = c :: cs ++ ds := by
    rw [List.cons_append, List.dropWhile_cons_of_neg (by simp [hhead c rfl])]
  rw [trim, hstart, trimEnd, dropEndWhile_append _ hds, ← trimEnd]

end Text

/-- Whether a text begins with one of the operators of sums and products, perhaps as a glyph. -/
def Continues (c : String) : Prop :=
  ∃ k ∈ c.toList.head?, k ∈ ['+', '-', '*', '/', '×', '÷', '−']

theorem Continues.exists_operator {c : String} (h : Continues c) :
    ∃ op cs, op ≠ BinaryOperator.rem ∧ replaceGlyphs (Text.trimEnd c.toList) = op.symbol :: cs := by
  obtain ⟨k, hhead, hk⟩ := h
  obtain ⟨cs, hcs⟩ := List.head?_eq_some_iff.1 hhead
  have hblank : ∀ k ∈ ['+', '-', '*', '/', '×', '÷', '−'], Text.isBlank k = false := by
    simp [Text.isBlank, Text.inRanges, Text.blankRanges]
  have hplain : ∀ k ∈ ['+', '-', '*', '/', '×', '÷', '−'], ∃ op, op ≠ BinaryOperator.rem ∧
      plain k = [op.symbol] := by
    simp only [List.forall_mem_cons]
    exact ⟨⟨.add, by decide⟩, ⟨.sub, by decide⟩, ⟨.mul, by decide⟩, ⟨.div, by decide⟩,
      ⟨.mul, by decide⟩, ⟨.div, by decide⟩, ⟨.sub, by decide⟩, by simp⟩
  obtain ⟨op, hop, hsymbol⟩ := hplain k hk
  refine ⟨op, replaceGlyphs (Text.trimEnd cs), hop, ?_⟩
  rw [hcs, Text.trimEnd, Text.dropEndWhile_cons (hblank k hk), replaceGlyphs, List.flatMap_cons,
    hsymbol]
  rfl

theorem textTokens_append_iff {b c : String} {ls : List Lexeme} {op : BinaryOperator}
    {cs : List Char} (h : Writes b.toList ls) (hchain : ls.IsChain Lexeme.Separable)
    (hne : b.toList ≠ []) (hhead : ∀ k ∈ b.toList.head?, Text.isBlank k = false) (hop : op ≠ .rem)
    (hcs : replaceGlyphs (Text.trimEnd c.toList) = op.symbol :: cs) (ts : List Token) :
    textTokens (b ++ c) = .ok ts ↔
      ∃ us, isSequence (expandPercent cs) = true ∧ tokens (expandPercent cs) = .ok us ∧
        ts = ls.flatMap Lexeme.tokens ++ .operator op :: us := by
  have hsymbol := symbolToken?_symbol op
  have hpercent : op.symbol ≠ '%' := by
    revert hop
    cases op <;> decide
  have hds : ∀ d ∈ (op.symbol :: cs).head?, isWordy d = false ∧ d ≠ '%' := by
    intro d hd
    obtain rfl : op.symbol = d := by simpa using hd
    exact ⟨(isVisible_of_symbolToken? hsymbol).2, hpercent⟩
  have htrimmed : Text.trimEnd c.toList ≠ [] := by
    intro hnil
    rw [hnil] at hcs
    cases hcs
  have hprepared : replaceGlyphs (Text.trim (b ++ c).toList) = b.toList ++ op.symbol :: cs := by
    rw [String.toList_append, Text.trim_append hne hhead htrimmed, replaceGlyphs_append,
      replaceGlyphs_of_isVisible h.isVisible, hcs]
  have hnonempty : expandPercent (b.toList ++ op.symbol :: cs) ≠ [] := by
    rw [ne_eq, expandPercent_eq_nil_iff]
    simp
  rw [textTokens_eq_ok_iff, hprepared, isSequence_writes_append h hchain hds,
    tokens_writes_append h hchain hds, expandPercent_cons (isMantissa_of_symbolToken? hsymbol),
    isSequence_cons (isPermitted_of_symbolToken? hsymbol), tokens_symbol hsymbol, Functor.map_map]
  constructor
  · rintro ⟨-, hsequence, htokens⟩
    obtain ⟨us, hus, rfl⟩ := exists_of_map_eq_ok htokens
    exact ⟨us, hsequence, hus, rfl⟩
  · rintro ⟨us, hsequence, hus, rfl⟩
    exact ⟨hnonempty, hsequence, by rw [hus]; rfl⟩

theorem toPostfix_signedTokens (negative : Bool) (x : Float) (op : BinaryOperator)
    (us : List Token) :
    toPostfix (signedTokens negative x ++ .operator op :: us) =
      toPostfix (.opening :: (signedTokens negative x ++ [.closing]) ++ .operator op :: us) := by
  cases negative <;> cases op <;> rfl

theorem isChain_signedTokens (negative : Bool) (x : Float) :
    ((signedTokens negative x).map Lexeme.token).IsChain Lexeme.Separable := by
  cases negative with
  | false => exact .singleton _
  | true => exact Lexeme.isChain_cons rfl (.singleton _)

theorem parse_eq_ok_iff {s : String} {t : Tree} :
    parse s = .ok t ↔ ∃ ts, textTokens s = .ok ts ∧ (toPostfix ts >>= Tree.ofPostfix) = .ok t := by
  rw [parse_eq_textTokens]
  exact ⟨exists_of_bind_eq_ok, fun ⟨ts, hts, ht⟩ => by rw [hts]; exact ht⟩

/-- A text that goes on with an operator after a numeral, perhaps with a minus, has the tree of the
same text with parentheses around the numeral and its minus, or neither has a tree. -/
theorem parse_signed_iff {b c : String} {negative : Bool} {n : Numeral}
    (hb : b.toList = (if negative then ['-'] else []) ++ n.text) (hc : Continues c) (t : Tree) :
    parse (b ++ c) = .ok t ↔ parse ("(" ++ b ++ ")" ++ c) = .ok t := by
  obtain ⟨op, cs, hop, hcs⟩ := hc.exists_operator
  have hwrites := writes_signed negative n
  rw [← hb] at hwrites
  have hchain := isChain_signedTokens negative n.value
  have henclosed : Writes ("(" ++ b ++ ")").toList
      ((.opening :: (signedTokens negative n.value ++ [.closing])).map .token) := by
    have hall :=
      (Writes.lexeme .opening (by simp [isMantissa]) hwrites).append (.of_spells .closing) (by simp)
    simpa using hall
  have hchain' :
      ((.opening :: (signedTokens negative n.value ++ [.closing])).map Lexeme.token).IsChain
        Lexeme.Separable := by
    rw [List.map_cons, List.map_append]
    exact Lexeme.isChain_cons rfl (Lexeme.isChain_append_cons rfl hchain .nil)
  have hhead : ∀ k ∈ b.toList.head?, Text.isBlank k = false := by
    intro k hk
    rw [hb] at hk
    cases negative with
    | false => exact isBlank_eq_false (isVisible_of_isMantissa (Mantissa.isMantissa_head hk))
    | true =>
        obtain rfl : '-' = k := by simpa using hk
        decide
  have hne : b.toList ≠ [] := by
    rw [hb]
    exact List.append_ne_nil_of_right_ne_nil _ n.text_ne_nil
  have hplain := textTokens_append_iff hwrites hchain hne hhead hop hcs
  have hparenthesized := textTokens_append_iff henclosed hchain' (by simp) (by simp; decide) hop hcs
  simp only [Lexeme.flatMap_tokens_map_token] at hplain hparenthesized
  rw [parse_eq_ok_iff, parse_eq_ok_iff]
  constructor
  · rintro ⟨ts, hts, ht⟩
    obtain ⟨us, hsequence, hus, rfl⟩ := (hplain ts).1 hts
    rw [toPostfix_signedTokens] at ht
    exact ⟨_, (hparenthesized _).2 ⟨us, hsequence, hus, rfl⟩, ht⟩
  · rintro ⟨ts, hts, ht⟩
    obtain ⟨us, hsequence, hus, rfl⟩ := (hparenthesized ts).1 hts
    rw [← toPostfix_signedTokens] at ht
    exact ⟨_, (hplain _).2 ⟨us, hsequence, hus, rfl⟩, ht⟩

theorem exists_numeral_of_isFinite {x : Float} (h : IsFinite x) :
    ∃ (negative : Bool) (n : Numeral),
      (text x).toList = (if negative then ['-'] else []) ++ n.text := by
  obtain ⟨negative, code, hcode, hzero, -, htext⟩ := written_of_isFinite h
  obtain ⟨n, hn, -⟩ := exists_numeral_of_text hcode hzero
  exact ⟨negative, n, by rw [htext, hn]⟩

theorem isVisible_of_mem_text {x : Float} (h : IsFinite x) :
    ∀ c ∈ (text x).toList, IsVisible c := by
  obtain ⟨negative, n, hn⟩ := exists_numeral_of_isFinite h
  rw [hn, List.forall_mem_append]
  refine ⟨?_, (Lexeme.Spells.numeral n).isVisible⟩
  cases negative with
  | false => simp
  | true => simp [IsVisible]

theorem evaluate_eq_ok_iff {degrees : Bool} {s : String} {v : Float} :
    evaluate degrees s = .ok v ↔
      ∃ t, parse s = .ok t ∧ (if degrees then t.inDegrees else t).value = .ok v := by
  rw [evaluate_eq]
  exact ⟨exists_of_bind_eq_ok, fun ⟨t, ht, hvalue⟩ => by rw [ht]; exact hvalue⟩

theorem Session.press_fields (s : Session) (key : String) :
    (s.press key).1.buffer = s.buffer ++ key ∧ (s.press key).1.degrees = s.degrees := by
  unfold press
  split
  · next hkey => simp [hkey]
  · exact ⟨rfl, rfl⟩

theorem Session.run_press (s : Session) (keys : List String) :
    (s.run (keys.map .press)).1.buffer = s.buffer ++ String.join keys ∧
    (s.run (keys.map .press)).1.degrees = s.degrees := by
  induction keys generalizing s with
  | nil => simp
  | cons key keys ih =>
      obtain ⟨hbuffer, hdegrees⟩ := s.press_fields key
      obtain ⟨hbuffer', hdegrees'⟩ := ih (s.press key).1
      rw [List.map_cons, run_cons, String.join_cons, ← String.append_assoc, ← hbuffer, ← hdegrees]
      exact ⟨hbuffer', hdegrees'⟩

/-- A value is one operand of what goes on from its text, in the tree and in the session. -/
theorem result_is_one_operand :
    (∀ (v : Float) (c : String), IsFinite v → Continues c →
      ∀ t, parse (text v ++ c) = .ok t ↔ parse ("(" ++ text v ++ ")" ++ c) = .ok t) ∧
    ∀ (s : Session) (v : Float) (keys : List String), s.outcome = some (.ok v) →
      Continues (String.join keys) →
      ∀ w, (s.equals.1.run (keys.map .press)).1.outcome = some (.ok w) ↔
        evaluate s.degrees ("(" ++ text v ++ ")" ++ String.join keys) = .ok w := by
  have htrees : ∀ (v : Float) (c : String), IsFinite v → Continues c →
      ∀ t, parse (text v ++ c) = .ok t ↔ parse ("(" ++ text v ++ ")" ++ c) = .ok t := by
    intro v c hv hc t
    obtain ⟨negative, n, hn⟩ := exists_numeral_of_isFinite hv
    exact parse_signed_iff hn hc t
  refine ⟨htrees, fun s v keys h hc w => ?_⟩
  obtain ⟨hbuffer, -, -, hdegrees, -⟩ := Session.equals_of_outcome h
  obtain ⟨hbuffer', hdegrees'⟩ := s.equals.1.run_press keys
  have hfinite := isFinite_of_evaluate (Session.outcome_eq_ok_iff.1 h)
  rw [Session.outcome_eq_ok_iff, hbuffer', hdegrees', hbuffer, hdegrees, evaluate_eq_ok_iff,
    evaluate_eq_ok_iff]
  exact exists_congr fun t => and_congr_left fun _ => htrees v _ hfinite hc t

theorem result_is_one_operand_scientific :
    ∃ (v : Float) (s : Session) (t : Tree), text v = "-3e+22" ∧ IsFinite v ∧ Continues "−5%+2" ∧
      t = .binary .add (.binary .sub (.negate (.number 3e22)) (.hundredth 5)) (.number 2) ∧
      parse "-3e+22−5%+2" = .ok t ∧ parse "(-3e+22)−5%+2" = .ok t ∧
      s = ((Session.start ⟨.english, false, true⟩).enter "-3*1e22").1 ∧ s.outcome = some (.ok v) ∧
      (s.equals.1.run (["−", "5", "%", "+", "2"].map .press)).1.outcome = some (.ok v) := by
  have htext : text (ofMagnitude true (Binary.double.nearest (3 * 10 ^ 22) 1)) = "-3e+22" := by
    decide +kernel
  have hfinite : IsFinite (ofMagnitude true (Binary.double.nearest (3 * 10 ^ 22) 1)) := by
    decide +kernel
  have hcontinues : Continues "−5%+2" := ⟨'−', by decide, by decide⟩
  have hparse : parse "(-3e+22)−5%+2" =
      .ok (.binary .add (.binary .sub (.negate (.number 3e22)) (.hundredth 5)) (.number 2)) := by
    decide +kernel
  have hvalue : evaluate false "-3*1e22" =
      .ok (ofMagnitude true (Binary.double.nearest (3 * 10 ^ 22) 1)) := by decide +kernel
  have hvalue' : evaluate false "(-3e+22)−5%+2" =
      .ok (ofMagnitude true (Binary.double.nearest (3 * 10 ^ 22) 1)) := by
    decide +kernel
  have houtcome : ((Session.start ⟨.english, false, true⟩).enter "-3*1e22").1.outcome =
      some (.ok _) :=
    Session.outcome_eq_ok_iff.2 hvalue
  have htree := result_is_one_operand.1 _ _ hfinite hcontinues
  have hsession := result_is_one_operand.2 _ _ ["−", "5", "%", "+", "2"] houtcome hcontinues
  rw [htext] at htree hsession
  exact ⟨_, _, _, htext, hfinite, hcontinues, rfl, (htree _).2 hparse, hparse, rfl, houtcome,
    (hsession _).2 hvalue'⟩

end TalkingCalculator
