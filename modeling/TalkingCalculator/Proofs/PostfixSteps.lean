import TalkingCalculator.Proofs.PostfixPrefixes

namespace TalkingCalculator.Conversion

open Grammar Lexeme

/-- `Reached ls c` says how the conversion stands after the lexemes `ls`: at the beginning of an
operand, after the name of a function, or after a factor. -/
inductive Reached : List Lexeme → Conversion → Prop
  | ready {ls output ops ps} (h : Awaiting .factor ls output ops ps) :
      Reached ls ⟨output, ops, ps, false, false⟩
  | name {ls output ops ps} (w : String) (h : Awaiting .factor ls output ops ps) :
      Reached (ls ++ [.token (.name w)]) ⟨output, .name w :: ops, ps, false, true⟩
  | value {ls ms output ops ps t} (h : Awaiting .factor ls output ops ps)
      (ht : LooselyDerives .factor ms t) :
      Reached (ls ++ ms) ⟨t.postfixOrder.reverse ++ output, ops, ps, true, false⟩

theorem reached_start : Reached [] .start :=
  .ready (.ofProduct (.ofSum .start))

theorem Awaiting.reached {ls : List Lexeme} {output ops : List Token} {ps : List (Option Nat)}
    (h : Awaiting .sum ls output ops ps) : Reached ls ⟨output, ops, ps, false, false⟩ :=
  .ready (.ofProduct (.ofSum h))

theorem reached_operand {ls : List Lexeme} {output ops : List Token} {ps : List (Option Nat)}
    {l : Lexeme} {t : Tree} (h : Awaiting .factor ls output ops ps) (ht : Lexeme.IsOperand [l] t) :
    Reached (ls ++ [l]) ⟨t.postfixOrder.reverse ++ output, ops, ps, true, false⟩ :=
  .value h (.ofAtom (.operand (.ofIsOperand ht)))

theorem step_operator_of_closes {level : Tier} {ls : List Lexeme} {output ops : List Token}
    {ps : List (Option Nat)} {op : BinaryOperator} {c : Conversion}
    (h : Closes level ls output ops ps) (hop : op.precedence = level.rank)
    (hlt : ∀ {before rest ops}, Awaiting level before rest ops ps →
      ∀ x ∈ ops.head?, x.precedence < level.rank)
    (hc : step ⟨output, ops, ps, true, false⟩ (.operator op) = .ok c) :
    ∃ before phrase t rest ops', ls = before ++ phrase ∧ Awaiting level before rest ops' ps ∧
      LooselyDerives level phrase t ∧
      c = ⟨t.postfixOrder.reverse ++ rest, .operator op :: ops', ps, false, false⟩ := by
  obtain ⟨before, phrase, t, rest, waiting, ops', hls, rfl, hwaiting, houtput, hbefore, ht⟩ := h
  have hpos : 1 ≤ level.rank := by cases level <;> decide
  refine ⟨before, phrase, t, rest, ops', hls, hbefore, ht, ?_⟩
  simp only [step, operate, hop] at hc
  rw [unstackOperators_append hpos hwaiting, unstackOperators_of_lt (hlt hbefore), houtput] at hc
  simpa using hc.symm

theorem reached_operator {ls : List Lexeme} {op : BinaryOperator} {c c' : Conversion}
    (h : Reached ls c) (hc : c.step (.operator op) = .ok c') :
    Reached (ls ++ [.token (.operator op)]) c' := by
  cases h with
  | @ready ls output ops ps h =>
      cases op with
      | sub =>
          obtain rfl : _ = c' := by simpa [step, operate] using hc
          exact .ready h.minus
      | add =>
          obtain rfl : _ = c' := by simpa [step, operate] using hc
          exact .ready h.plus
      | mul | div | rem => simp [step, operate] at hc
  | name w h => simp [step] at hc
  | @value ls ms output ops ps t h ht =>
      have hproduct := closes_product h ht
      by_cases hop : op ∈ [.add, .sub]
      · have hrank : op.precedence = Tier.sum.rank := by
          revert hop
          cases op <;> decide
        obtain ⟨before, phrase, a, rest, ops', hls, hbefore, ha, rfl⟩ :=
          step_operator_of_closes hproduct.sum hrank (fun h => h.precedence_lt_of_sum) hc
        rw [hls]
        exact .ready (.ofProduct (hbefore.sum hop ha))
      · have hop' : op ∈ [.mul, .div, .rem] := by
          revert hop
          cases op <;> decide
        have hrank : op.precedence = Tier.product.rank := by
          revert hop'
          cases op <;> decide
        obtain ⟨before, phrase, a, rest, ops', hls, hbefore, ha, rfl⟩ :=
          step_operator_of_closes hproduct hrank (fun h => h.precedence_lt_of_product) hc
        rw [hls]
        exact .ready (hbefore.product hop' ha)

theorem unstackToOpening_of_closes {ls : List Lexeme} {output ops output' ops' : List Token}
    {ps : List (Option Nat)} (h : Closes .sum ls output ops ps)
    (hr : unstackToOpening output ops = .ok (output', ops')) :
    ∃ before phrase t rest ops₀, ls = before ++ phrase ∧
      Awaiting .sum before rest (.opening :: ops₀) ps ∧ LooselyDerives .sum phrase t ∧
      output' = t.postfixOrder.reverse ++ rest ∧ ops' = .opening :: ops₀ := by
  obtain ⟨before, phrase, t, rest, waiting, ops₀, hls, rfl, hwaiting, houtput, hbefore, ht⟩ := h
  rw [unstackToOpening_append hwaiting, houtput] at hr
  cases hbefore with
  | start => simp [unstackToOpening] at hr
  | parentheses h =>
      obtain ⟨rfl, rfl⟩ : _ ∧ _ := by simpa [unstackToOpening] using hr
      exact ⟨_, phrase, t, rest, _, hls, .parentheses h, ht, rfl, rfl⟩
  | call w h hs =>
      obtain ⟨rfl, rfl⟩ : _ ∧ _ := by simpa [unstackToOpening] using hr
      exact ⟨_, phrase, t, _, _, hls, .call w h hs, ht, rfl, rfl⟩

theorem reached_comma {ls : List Lexeme} {c c' : Conversion} (h : Reached ls c)
    (hc : c.step .comma = .ok c') : Reached (ls ++ [.token .comma]) c' := by
  cases h with
  | ready h => simp [step, separate] at hc
  | name w h => simp [step] at hc
  | @value ls ms output ops ps t h ht =>
      simp only [step, separate] at hc
      cases hr : unstackToOpening (t.postfixOrder.reverse ++ output) ops with
      | error e => simp [hr, bind, Except.bind] at hc
      | ok moved =>
          obtain ⟨output', ops'⟩ := moved
          obtain ⟨before, phrase, a, rest, ops₀, hls, hbefore, ha, rfl, rfl⟩ :=
            unstackToOpening_of_closes (closes_product h ht).sum hr
          rw [hr] at hc
          rw [hls]
          cases hbefore with
          | parentheses h => simp [bind, Except.bind] at hc
          | call w hfactor hs =>
              obtain rfl : _ = c' := by simpa [bind, Except.bind] using hc
              have hcall := Awaiting.call w hfactor (hs.snoc ha)
              simpa using hcall.reached

theorem reached_closing {ls : List Lexeme} {c c' : Conversion} (h : Reached ls c)
    (hc : c.step .closing = .ok c') : Reached (ls ++ [.token .closing]) c' := by
  cases h with
  | ready h => simp [step, close] at hc
  | name w h => simp [step] at hc
  | @value ls ms output ops ps t h ht =>
      simp only [step, close] at hc
      cases hr : unstackToOpening (t.postfixOrder.reverse ++ output) ops with
      | error e => simp [hr, bind, Except.bind] at hc
      | ok moved =>
          obtain ⟨output', ops'⟩ := moved
          obtain ⟨before, phrase, a, rest, ops₀, hls, hbefore, ha, rfl, rfl⟩ :=
            unstackToOpening_of_closes (closes_product h ht).sum hr
          rw [hr] at hc
          rw [hls]
          cases hbefore with
          | parentheses hfactor =>
              obtain rfl : _ = c' := by simpa [bind, Except.bind, closeCall] using hc
              simpa using Reached.value hfactor (.ofAtom (.parentheses ha))
          | @call _ us _ _ _ as w hfactor hs =>
              by_cases harity : arity? w = some (as.length + 1)
              · obtain rfl : _ = c' := by simpa [bind, Except.bind, closeCall, harity] using hc
                obtain ⟨t, ht, horder⟩ := hs.call ha harity
                simpa [horder] using Reached.value hfactor (.ofAtom ht)
              · simp [bind, Except.bind, closeCall, harity] at hc

theorem reached_token {ls : List Lexeme} {t : Token} {c c' : Conversion} (h : Reached ls c)
    (hc : c.step t = .ok c') : Reached (ls ++ [.token t]) c' := by
  cases t with
  | operator op => exact reached_operator h hc
  | comma => exact reached_comma h hc
  | closing => exact reached_closing h hc
  | negation | call w count => cases h <;> simp [step] at hc
  | number x =>
      cases h with
      | ready h =>
          obtain rfl : _ = c' := by simpa [step, push] using hc
          exact reached_operand h (.token (.number x))
      | name w h | value h ht => simp [step, push] at hc
  | pi =>
      cases h with
      | ready h =>
          obtain rfl : _ = c' := by simpa [step, push] using hc
          exact reached_operand h (.token .pi)
      | name w h | value h ht => simp [step, push] at hc
  | euler =>
      cases h with
      | ready h =>
          obtain rfl : _ = c' := by simpa [step, push] using hc
          exact reached_operand h (.token .euler)
      | name w h | value h ht => simp [step, push] at hc
  | name w =>
      cases h with
      | ready h =>
          obtain rfl : _ = c' := by simpa [step] using hc
          exact .name w h
      | name v h | value h ht => simp [step] at hc
  | opening =>
      cases h with
      | ready h =>
          obtain rfl : _ = c' := by simpa [step] using hc
          exact h.parentheses.reached
      | name w h =>
          obtain rfl : _ = c' := by simpa [step] using hc
          simpa using (Awaiting.call w h .nil).reached
      | value h ht => simp [step] at hc

theorem reached_percentage {ls : List Lexeme} {x : Float} {c c' : Conversion} (h : Reached ls c)
    (hc : (Lexeme.percentage x).tokens.foldlM step c = .ok c') :
    Reached (ls ++ [.percentage x]) c' := by
  cases h with
  | ready h =>
      obtain rfl : _ = c' := by
        simpa [Lexeme.tokens, step, push, operate, close, unstackOperators, unstackToOpening,
          Token.isOperator, Token.precedence, closeCall, bind, Except.bind, pure,
          Except.pure] using hc
      exact reached_operand h (.percentage x)
  | value h ht => simp [Lexeme.tokens, step, bind, Except.bind] at hc
  | @name ls output ops ps w h =>
      by_cases harity : arity? w = some 1
      · obtain rfl : _ = c' := by
          simpa [Lexeme.tokens, step, push, operate, close, unstackOperators, unstackToOpening,
            Token.isOperator, Token.precedence, closeCall, bind, Except.bind, pure, Except.pure,
            harity] using hc
        obtain ⟨rfl, hcount⟩ | ⟨f, rfl, -⟩ := arity?_eq_some_iff.1 harity
        · cases hcount
        · simpa [Tree.postfixOrder, Tree.hundredth] using
            Reached.value h (.ofAtom (.operand (.call f x)))
      · simp [Lexeme.tokens, step, push, operate, close, unstackOperators, unstackToOpening,
          Token.isOperator, Token.precedence, closeCall, bind, Except.bind, harity] at hc

theorem exists_of_foldlM_step_append {ts us : List Token} {c c'' : Conversion}
    (h : (ts ++ us).foldlM step c = .ok c'') :
    ∃ c', ts.foldlM step c = .ok c' ∧ us.foldlM step c' = .ok c'' := by
  rw [List.foldlM_append] at h
  cases hrun : ts.foldlM step c with
  | error e => simp [hrun, bind, Except.bind] at h
  | ok c' => exact ⟨c', rfl, by simpa [hrun, bind, Except.bind] using h⟩

theorem reached_lexeme {ls : List Lexeme} {l : Lexeme} {c c' : Conversion} (h : Reached ls c)
    (hc : l.tokens.foldlM step c = .ok c') : Reached (ls ++ [l]) c' := by
  cases l with
  | token t => exact reached_token h (by simpa [Lexeme.tokens] using hc)
  | percentage x => exact reached_percentage h hc

theorem reached_lexemes {ms : List Lexeme} {ls : List Lexeme} {c c' : Conversion} (h : Reached ls c)
    (hc : (ms.flatMap Lexeme.tokens).foldlM step c = .ok c') : Reached (ls ++ ms) c' := by
  induction ms generalizing ls c with
  | nil =>
      obtain rfl : c = c' := by simpa [pure, Except.pure] using hc
      simpa using h
  | cons l ms ih =>
      rw [List.flatMap_cons] at hc
      obtain ⟨c₁, hl, hms⟩ := exists_of_foldlM_step_append hc
      simpa using ih (reached_lexeme h hl) hms

theorem exists_derives_of_finish {ls : List Lexeme} {c : Conversion} {ts : List Token}
    (h : Reached ls c) (hc : c.finish = .ok ts) :
    ∃ t, LooselyDerives .sum ls t ∧ ts = t.postfixOrder := by
  cases h with
  | ready h => simp [finish] at hc
  | name w h => simp [finish] at hc
  | @value ls ms output ops ps t h ht =>
      obtain ⟨before, phrase, a, rest, waiting, ops', hls, rfl, hwaiting, houtput, hbefore, ha⟩ :=
        (closes_product h ht).sum
      simp only [finish] at hc
      rw [unstackAll_append hwaiting, houtput] at hc
      cases hbefore with
      | start =>
          obtain rfl : _ = ts := by
            simpa [unstackAll, bind, Except.bind, pure, Except.pure] using hc
          exact ⟨a, by simpa [hls] using ha, rfl⟩
      | parentheses h | call w h hs =>
          simp [unstackAll, Token.isOperator, Token.precedence, bind, Except.bind] at hc

end TalkingCalculator.Conversion
