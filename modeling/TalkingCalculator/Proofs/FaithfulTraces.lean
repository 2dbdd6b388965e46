import TalkingCalculator.Proofs.DisplayedTexts
import TalkingCalculator.Proofs.StablePreparation

namespace TalkingCalculator

open Grammar Input Lexer Number

theorem Decimal.nearest_le_infinity (b : Binary) (d : Decimal) : d.nearest b ≤ b.infinity := by
  unfold nearest
  split
  · exact Nat.zero_le _
  · split
    · exact Nat.le_refl _
    · split
      · exact Nat.zero_le _
      · exact Nat.min_le_left _ _

theorem Numeral.isNegative_value (n : Numeral) : isNegative n.value = false := by
  have hle := n.decimal.nearest_le_infinity Binary.double
  rw [Numeral.value, ofDecimal]
  rcases Nat.lt_or_eq_of_le hle with hlt | heq
  · exact isNegative_ofMagnitude false hlt
  · rw [heq]
    decide +kernel

theorem Lexeme.isTyped_of_spells {w : List Char} {l : Lexeme} (h : l.Spells w)
    (hfinite : ∀ x, Token.number x ∈ l.tokens → IsFinite x) : ∀ t ∈ l.tokens, t.IsTyped := by
  have hhundred : IsLiteral 100 := by decide +kernel
  intro t ht
  cases h with
  | numeral n =>
      obtain rfl := List.mem_singleton.1 ht
      exact ⟨hfinite _ List.mem_cons_self, n.isNegative_value⟩
  | percentage m =>
      have hm : IsLiteral (Numeral.value ⟨m, none⟩) :=
        ⟨hfinite _ (by simp [Lexeme.tokens]), Numeral.isNegative_value _⟩
      simp only [Lexeme.tokens, List.mem_cons, List.not_mem_nil, or_false] at ht
      rcases ht with rfl | rfl | rfl | rfl | rfl
      · trivial
      · exact hm
      · trivial
      · exact hhundred
      · trivial
  | name w hw =>
      obtain rfl := List.mem_singleton.1 ht
      exact hw
  | _ =>
      obtain rfl := List.mem_singleton.1 ht
      trivial

theorem Writes.exists_spells {cs : List Char} {ls : List Lexeme} (h : Writes cs ls) :
    ∀ l ∈ ls, ∃ w, l.Spells w := by
  induction h with
  | nil => simp
  | blank hc h ih => exact ih
  | lexeme hw hpercent h ih => exact List.forall_mem_cons.2 ⟨⟨_, hw⟩, ih⟩

theorem isTyped_of_textTokens {s : String} {ts : List Token} (h : textTokens s = .ok ts)
    (hnumbers : ∀ x, Token.number x ∈ ts → IsFinite x) : ∀ t ∈ ts, t.IsTyped := by
  obtain ⟨ls, hwrites, rfl⟩ := exists_writes_of_textTokens h
  intro t ht
  obtain ⟨l, hl, ht⟩ := List.mem_flatMap.1 ht
  obtain ⟨w, hw⟩ := hwrites.exists_spells l hl
  exact Lexeme.isTyped_of_spells hw (fun x hx => hnumbers x (List.mem_flatMap.2 ⟨l, hl, hx⟩)) t ht

namespace Token

variable {ts : List Token}

theorem toList_textOfList_cons (t : Token) (ts : List Token) :
    (textOfList (t :: ts)).toList = t.text.toList ++ if ts = [] then
      [] else ' ' :: (textOfList ts).toList := by
  cases ts with
  | nil => simp [textOfList]
  | cons u ts => simp [textOfList, String.intercalate_cons_cons]

theorem textOfList_ne_nil (hne : ts ≠ []) (h : ∀ t ∈ ts, t.IsTyped) :
    (textOfList ts).toList ≠ [] := by
  obtain ⟨t, ts, rfl⟩ := List.exists_cons_of_ne_nil hne
  rw [toList_textOfList_cons]
  exact List.append_ne_nil_of_left_ne_nil (Lexeme.spells_text (h t (by simp))).ne_nil _

theorem writes_textOfList (h : ∀ t ∈ ts, t.IsTyped) :
    Writes (textOfList ts).toList (ts.map .token) := by
  induction ts with
  | nil => exact .nil
  | cons t ts ih =>
      obtain ⟨ht, hts⟩ := List.forall_mem_cons.1 h
      rw [toList_textOfList_cons, List.map_cons]
      refine .lexeme (Lexeme.spells_text ht) (fun _ _ _ => by split <;> simp) ?_
      split
      · next hnil =>
          rw [hnil]
          exact .nil
      · exact .blank (by decide) (ih hts)

theorem isTrimmed_textOfList (h : ∀ t ∈ ts, t.IsTyped) : Text.IsTrimmed (textOfList ts).toList := by
  induction ts with
  | nil => simp [Text.IsTrimmed, textOfList]
  | cons t ts ih =>
      obtain ⟨ht, hts⟩ := List.forall_mem_cons.1 h
      have hspells := Lexeme.spells_text ht
      rw [toList_textOfList_cons]
      constructor
      · intro c hc
        rw [List.head?_append_of_ne_nil _ hspells.ne_nil] at hc
        exact isBlank_eq_false (hspells.isVisible c (List.mem_of_mem_head? hc))
      · split
        · intro c hc
          rw [List.append_nil] at hc
          exact isBlank_eq_false (hspells.isVisible c (List.mem_of_mem_getLast? hc))
        · next hne =>
            rw [List.append_cons, List.getLast?_append_of_ne_nil _ (textOfList_ne_nil hne hts)]
            exact (ih hts).2

theorem expandPercent_textOfList (h : ∀ t ∈ ts, t.IsTyped) :
    expandPercent (textOfList ts).toList = (textOfList ts).toList := by
  induction ts with
  | nil => exact expandPercent_eq_nil_iff.2 rfl
  | cons t ts ih =>
      obtain ⟨ht, hts⟩ := List.forall_mem_cons.1 h
      rw [toList_textOfList_cons,
        expandPercent_spells (Lexeme.spells_text ht) (.of_head? (by split <;> simp; decide))]
      split
      · rw [expandPercent_eq_nil_iff.2 rfl]
      · rw [expandPercent_cons (by decide), ih hts]

end Token

theorem calculate_eq_ok_iff {degrees : Bool} {s : String} {v : Float} {trace : Trace} :
    calculate degrees s = .ok (v, trace) ↔
      ∃ ts ordered t, prepare s = .ok trace.prepared ∧ tokenize trace.prepared = .ok ts ∧
        toPostfix ts = .ok ordered ∧ Tree.ofPostfix ordered = .ok t ∧
        (if degrees then t.inDegrees else t).value = .ok v ∧ trace.tokens = Token.textOfList ts ∧
        trace.postfixOrder = Token.textOfList ordered ∧
        trace.tree = (if degrees then t.inDegrees else t).text := by
  constructor
  · intro h
    obtain ⟨prepared, hprepared, h⟩ := exists_of_bind_eq_ok h
    obtain ⟨ts, htokens, h⟩ := exists_of_bind_eq_ok h
    obtain ⟨ordered, hordered, h⟩ := exists_of_bind_eq_ok h
    obtain ⟨t, ht, h⟩ := exists_of_bind_eq_ok h
    obtain ⟨value, hvalue, h⟩ := exists_of_bind_eq_ok h
    cases h
    exact ⟨ts, ordered, t, hprepared, htokens, hordered, ht, hvalue, rfl, rfl, rfl⟩
  · obtain ⟨prepared, tokens, postfixOrder, tree⟩ := trace
    rintro ⟨ts, ordered, t, hprepared, htokens, hordered, ht, hvalue, rfl, rfl, rfl⟩
    simp only [calculate, hprepared, htokens, hordered, ht, hvalue, bind, Except.bind, pure,
      Except.pure]

/-- The text of the tokens of an expression is prepared already, and has these tokens. -/
theorem prepare_textOfList {ts ordered : List Token} (h : ∀ t ∈ ts, t.IsTyped)
    (hordered : toPostfix ts = .ok ordered) :
    prepare (Token.textOfList ts) = .ok (Token.textOfList ts) ∧
    tokenize (Token.textOfList ts) = .ok ts := by
  rw [← Lexeme.flatMap_tokens_map_token ts] at hordered
  obtain ⟨t, ht, -⟩ := exists_looselyDerives_of_toPostfix hordered
  have hchain := Lexeme.isChain_of_looselyDerives ht
  have hne : ts ≠ [] := by
    rintro rfl
    cases hordered
  have hwrites := Token.writes_textOfList h
  have hexpand := Token.expandPercent_textOfList h
  constructor
  · refine prepare_eq_ok_iff.2 ⟨?_, Token.textOfList_ne_nil hne h, ?_⟩
    · rw [Text.trim_eq_self (Token.isTrimmed_textOfList h),
        replaceGlyphs_of_isVisible hwrites.isVisible, hexpand]
    · rw [← hexpand]
      exact isSequence_of_writes hwrites hchain
  · rw [tokenize, ← hexpand, tokens_of_writes hwrites hchain, Lexeme.flatMap_tokens_map_token]

/-- Both the prepared text of a calculation and the text of its tokens are calculated to the same
value, with the same trace. -/
theorem trace_is_faithful {degrees : Bool} {s : String} {v : Float} {trace : Trace}
    (h : calculate degrees s = .ok (v, trace))
    (hnumbers : ∀ ts, textTokens s = .ok ts → ∀ x, Token.number x ∈ ts → IsFinite x) :
    calculate degrees trace.prepared = .ok (v, trace) ∧
      calculate degrees trace.tokens = .ok (v, { trace with prepared := trace.tokens }) := by
  obtain ⟨ts, ordered, t, hprepared, htokens, hordered, ht, hvalue, htokensText, horderText,
      htreeText⟩ :=
    calculate_eq_ok_iff.1 h
  have htext : textTokens s = .ok ts := by
    rw [textTokens, hprepared]
    exact htokens
  obtain ⟨hprepared', htokens'⟩ :=
    prepare_textOfList (isTyped_of_textTokens htext (hnumbers ts htext)) hordered
  rw [← htokensText] at hprepared' htokens'
  constructor
  · exact calculate_eq_ok_iff.2
      ⟨ts, ordered, t, prepare_of_prepare hprepared, htokens, hordered, ht, hvalue, htokensText,
        horderText, htreeText⟩
  · exact calculate_eq_ok_iff.2
      ⟨ts, ordered, t, hprepared', htokens', hordered, ht, hvalue, htokensText, horderText,
        htreeText⟩

theorem trace_is_faithful_signs :
    ∃ trace, trace = ⟨"7 %3*4/(4/100)-e+2e21", "7 % 3 * 4 / ( 4 / 100 ) - e + 2e+21",
      "7 3 % 4 * 4 100 / / e - 2e+21 +",
        "(((((7%3)*4)/(4/100))-e)+2e+21)"⟩ ∧
      calculate true " 7 %3×4÷4%−e+2e21" = .ok (2e21, trace) ∧
      (∀ ts, textTokens " 7 %3×4÷4%−e+2e21" = .ok ts → ∀ x, Token.number x ∈ ts → IsFinite x) ∧
      calculate true "7 %3*4/(4/100)-e+2e21" = .ok (2e21, trace) ∧
      calculate true "7 % 3 * 4 / ( 4 / 100 ) - e + 2e+21" =
        .ok (2e21, { trace with prepared := trace.tokens }) := by
  refine ⟨_, rfl, ?_⟩
  have hcalculate : calculate true " 7 %3×4÷4%−e+2e21" =
      .ok (2e21,
        ⟨"7 %3*4/(4/100)-e+2e21", "7 % 3 * 4 / ( 4 / 100 ) - e + 2e+21",
          "7 3 % 4 * 4 100 / / e - 2e+21 +",
        "(((((7%3)*4)/(4/100))-e)+2e+21)"⟩) := by decide +kernel
  have htokens : textTokens " 7 %3×4÷4%−e+2e21" =
      .ok [.number 7, .operator .rem, .number 3, .operator .mul, .number 4, .operator .div,
      .opening, .number 4, .operator .div, .number 100, .closing, .operator .sub, .euler,
      .operator .add, .number 2e21] := by
    decide +kernel
  have hnumbers : ∀ ts, textTokens " 7 %3×4÷4%−e+2e21" = .ok ts → ∀ x, Token.number x ∈ ts →
      IsFinite x := by
    intro ts hts x hx
    obtain rfl := Except.ok.inj (htokens.symm.trans hts)
    simp only [List.mem_cons, Token.number.injEq, reduceCtorEq, List.not_mem_nil, or_false,
      false_or] at hx
    rcases hx with rfl | rfl | rfl | rfl | rfl | rfl <;> decide +kernel
  exact ⟨hcalculate, hnumbers, trace_is_faithful hcalculate hnumbers⟩

end TalkingCalculator
