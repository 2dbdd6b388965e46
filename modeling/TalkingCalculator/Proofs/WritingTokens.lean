import Mathlib.Data.List.Chain
import TalkingCalculator.Proofs.Lexing
import TalkingCalculator.Proofs.PercentExpansion
import TalkingCalculator.Proofs.PostfixStacks
import TalkingCalculator.Proofs.Writing

namespace TalkingCalculator

open Grammar Input Lexer

theorem Mantissa.isMantissa_of_mem {m : Mantissa} {c : Char} (hc : c ∈ m.text) :
    isMantissa c = true := by
  obtain ⟨whole, fraction, hdigit, hne⟩ := m
  have hmantissa : ∀ c ∈ whole ++ fraction.getD [], isMantissa c = true := by
    intro c hc
    simp [isMantissa, hdigit c hc]
  cases fraction with
  | none => exact hmantissa c (by simpa [Mantissa.text] using hc)
  | some fraction =>
      simp only [Mantissa.text, Option.elim_some, List.mem_append, List.mem_cons] at hc
      rcases hc with hc | rfl | hc
      · exact hmantissa c (by simp [hc])
      · decide
      · exact hmantissa c (by simp [hc])

theorem Mantissa.text_ne_nil (m : Mantissa) : m.text ≠ [] := by
  obtain ⟨whole, fraction, hdigit, hne⟩ := m
  cases fraction with
  | none => simpa [Mantissa.text] using hne
  | some fraction => simp [Mantissa.text]

theorem Mantissa.isMantissa_head {m : Mantissa} {cs : List Char} {c : Char}
    (hc : c ∈ (m.text ++ cs).head?) :
    isMantissa c = true := by
  obtain ⟨d, ds, htext⟩ := List.exists_cons_of_ne_nil m.text_ne_nil
  obtain rfl : d = c := by simpa [htext] using hc
  exact m.isMantissa_of_mem (by simp [htext])

theorem isAlpha_of_mem_name {w : String} (hw : (arity? w).isSome = true) :
    w.toList ≠ [] ∧ ∀ c ∈ w.toList, c.isAlpha = true := by
  obtain ⟨count, hcount⟩ := Option.isSome_iff_exists.1 hw
  rcases arity?_eq_some_iff.1 hcount with ⟨rfl, -⟩ | ⟨f, rfl, -⟩
  · exact ⟨by decide, List.all_eq_true.1 (by decide)⟩
  · cases f <;> exact ⟨by decide, List.all_eq_true.1 (by decide)⟩

theorem isAlpha_of_mem_pi : ∀ c ∈ ['P', 'I'], c.isAlpha = true :=
  List.all_eq_true.1 (by decide)

theorem isAlpha_of_mem_euler : ∀ c ∈ ['e'], c.isAlpha = true :=
  List.all_eq_true.1 (by decide)

theorem Lexer.wordToken_name {w : String} (hw : (arity? w).isSome = true) :
    wordToken w = .ok (.name w) := by
  have hpi : w ≠ "PI" := by
    rintro rfl
    exact absurd hw (by decide)
  have heuler : w ≠ "e" := by
    rintro rfl
    exact absurd hw (by decide)
  rw [wordToken, if_neg hpi, if_neg heuler, if_pos hw]

namespace Lexeme

def isWord : Lexeme → Bool
  | token (.number _) | token .pi | token .euler | token (.name _) | percentage _ => true
  | token _ => false

def isLetters : Lexeme → Bool
  | token .pi | token .euler | token (.name _) => true
  | _ => false

def isNumeral : Lexeme → Bool
  | token (.number _) => true
  | _ => false

/-- Whether two lexemes need no blank between them. -/
def Separable (a b : Lexeme) : Prop :=
  (a.isLetters = true → b.isLetters = false) ∧ (a.isNumeral = true → b.isWord = false)

theorem isLetters_eq_false {l : Lexeme} (h : l.isWord = false) : l.isLetters = false := by
  cases l with
  | percentage x => rfl
  | token t => cases t <;> first | rfl | cases h

theorem isNumeral_eq_false {l : Lexeme} (h : l.isWord = false) : l.isNumeral = false := by
  cases l with
  | percentage x => rfl
  | token t => cases t <;> first | rfl | cases h

theorem separable_of_left {s l : Lexeme} (hs : s.isWord = false) : Separable s l := by
  constructor
  · intro h
    rw [isLetters_eq_false hs] at h
    cases h
  · intro h
    rw [isNumeral_eq_false hs] at h
    cases h

theorem separable_of_right {s l : Lexeme} (hs : s.isWord = false) : Separable l s :=
  ⟨fun _ => isLetters_eq_false hs, fun _ => hs⟩

theorem separable_of_isNumeral_eq_false {l k : Lexeme} (hl : l.isNumeral = false)
    (hk : k.isLetters = false) : Separable l k := by
  refine ⟨fun _ => hk, fun h => ?_⟩
  rw [hl] at h
  cases h

theorem isChain_cons {s : Lexeme} {ls : List Lexeme} (hs : s.isWord = false)
    (h : ls.IsChain Separable) :
    (s :: ls).IsChain Separable := by
  rw [List.isChain_cons]
  exact ⟨fun _ _ => separable_of_left hs, h⟩

theorem isChain_append_cons {s : Lexeme} {ls ms : List Lexeme} (hs : s.isWord = false)
    (hl : ls.IsChain Separable) (hm : ms.IsChain Separable) :
    (ls ++ s :: ms).IsChain Separable := by
  rw [List.isChain_append]
  refine ⟨hl, isChain_cons hs hm, fun _ _ b hb => ?_⟩
  obtain rfl : s = b := by simpa using hb
  exact separable_of_right hs

theorem isChain_of_looselyDerives {level : Tier} {ls : List Lexeme} {t : Tree}
    (h : LooselyDerives level ls t) :
    ls.IsChain Separable := by
  induction h with
  | operand h =>
      cases h with
      | ofIsOperand h => cases h <;> exact .singleton _
      | call f x => exact .cons_cons (separable_of_isNumeral_eq_false rfl rfl) (.singleton _)
  | parentheses h ih => exact isChain_cons rfl (isChain_append_cons rfl ih .nil)
  | call f h ih =>
      exact .cons_cons (separable_of_right rfl) (isChain_cons rfl (isChain_append_cons rfl ih .nil))
  | power ha hb iha ihb =>
      exact .cons_cons (separable_of_right rfl)
        (isChain_cons rfl (isChain_append_cons rfl iha (isChain_append_cons rfl ihb .nil)))
  | ofAtom h ih => exact ih
  | minus h ih => exact isChain_cons rfl ih
  | plus h ih => exact isChain_cons rfl ih
  | ofFactor h ih => exact ih
  | product hop ha hb iha ihb => exact isChain_append_cons rfl iha ihb
  | ofProduct h ih => exact ih
  | sum hop ha hb iha ihb => exact isChain_append_cons rfl iha ihb

theorem Spells.exists_symbol {w : List Char} {l : Lexeme} (h : l.Spells w) (hl : l.isWord = false) :
    ∃ c t, w = [c] ∧ l = .token t ∧ symbolToken? c = some t := by
  cases h with
  | numeral | percentage | pi | euler | name => cases hl
  | operator op => exact ⟨op.symbol, _, rfl, rfl, symbolToken?_symbol op⟩
  | opening => exact ⟨'(', _, rfl, rfl, rfl⟩
  | closing => exact ⟨')', _, rfl, rfl, rfl⟩
  | comma => exact ⟨',', _, rfl, rfl, rfl⟩

theorem Spells.ne_nil {w : List Char} {l : Lexeme} (h : l.Spells w) : w ≠ [] := by
  cases h with
  | numeral n =>
      intro hn
      exact n.mantissa.text_ne_nil (List.append_eq_nil_iff.1 hn).1
  | percentage m => simp
  | name w hw => exact (isAlpha_of_mem_name hw).1
  | _ => simp

theorem Spells.isWord {w : List Char} {l : Lexeme} {c : Char} (h : l.Spells w) (hmem : c ∈ w)
    (hc : isWordy c = true) : l.isWord = true := by
  cases hl : l.isWord with
  | true => rfl
  | false =>
      obtain ⟨d, t, rfl, rfl, hd⟩ := h.exists_symbol hl
      obtain rfl : c = d := by simpa using hmem
      rw [(isVisible_of_symbolToken? hd).2] at hc
      cases hc

end Lexeme

/-- Whether what follows a written lexeme can neither lengthen it nor make it a percentage. -/
def Apart (w cs : List Char) : Prop :=
  ∀ c ∈ w.getLast?, ∀ d ∈ cs.head?,
    (c.isAlpha = true → d.isAlpha = false) ∧ (isMantissa c = true → isWordy d = false ∧ d ≠ '%')

theorem Apart.of_head? {w cs : List Char} (h : ∀ d ∈ cs.head?, isWordy d = false ∧ d ≠ '%') :
    Apart w cs := by
  intro c hc d hd
  obtain ⟨hwordy, hpercent⟩ := h d hd
  exact ⟨fun _ => (isWordy_eq_false_iff.1 hwordy).2, fun _ => ⟨hwordy, hpercent⟩⟩

theorem Apart.expandPercent {w cs : List Char} (h : Apart w cs) : Apart w (expandPercent cs) := by
  intro c hc d hd
  rcases head?_expandPercent cs d hd with rfl | hd
  · exact ⟨fun _ => by decide, fun _ => by decide⟩
  · exact h c hc d hd

theorem Exponent.isMantissa_mark (e : Exponent) : ∀ c ∈ 'e' :: e.sign, isMantissa c = false := by
  rcases e.sign_eq with h | h | h <;> rw [h] <;> simp [isMantissa]

theorem Exponent.isMantissa_digits (e : Exponent) : ∀ c ∈ e.digits, isMantissa c = true :=
  fun c hc => by simp [isMantissa, e.isDigit c hc]

theorem expandPercent_exponent (e : Exponent) {cs : List Char}
    (hhead : ∀ c ∈ cs.head?, isMantissa c = false ∧ c ≠ '%') :
    expandPercent (e.text ++ cs) = e.text ++ expandPercent cs := by
  have htext : e.text = ('e' :: e.sign) ++ e.digits := rfl
  have hrest : ∀ c ∈ cs.head?, isMantissa c = false ∧ (c = '%' → e.digits = []) :=
    fun c hc => ⟨(hhead c hc).1, fun h => absurd h (hhead c hc).2⟩
  rw [htext, List.append_assoc, expandPercent_append e.isMantissa_mark,
    expandPercent_run e.isMantissa_digits hrest]
  simp

theorem Numeral.isMantissa_getLast {n : Numeral} {c : Char} (hc : c ∈ n.text.getLast?) :
    isMantissa c = true := by
  obtain ⟨m, exponent⟩ := n
  cases exponent with
  | none =>
      rw [Numeral.text, Option.elim_none, List.append_nil] at hc
      exact m.isMantissa_of_mem (List.mem_of_mem_getLast? hc)
  | some e =>
      have htext : Numeral.text ⟨m, some e⟩ = (m.text ++ 'e' :: e.sign) ++ e.digits := by
        simp [Numeral.text, Exponent.text]
      rw [htext, List.getLast?_append_of_ne_nil _ e.ne_nil] at hc
      exact e.isMantissa_digits c (List.mem_of_mem_getLast? hc)

theorem Numeral.text_ne_nil (n : Numeral) : n.text ≠ [] := by
  intro h
  exact n.mantissa.text_ne_nil (List.append_eq_nil_iff.1 h).1

theorem splitExponent_exponent (n : Numeral) {cs : List Char}
    (hhead : ∀ c ∈ cs.head?, isWordy c = false) :
    splitExponent (n.exponent.elim [] Exponent.text ++ cs) =
      (n.exponent.elim [] Exponent.text, cs) := by
  cases n.exponent with
  | none =>
      refine splitExponent_of_head? fun c hc => ?_
      rintro rfl
      exact absurd (hhead 'e' hc) (by decide)
  | some e =>
      refine splitExponent_text e fun c hc => ?_
      have hmantissa := (isWordy_eq_false_iff.1 (hhead c hc)).1
      simp only [isMantissa, Bool.or_eq_false_iff] at hmantissa
      exact hmantissa.1

theorem expandPercent_numeral (n : Numeral) {cs : List Char}
    (hhead : ∀ c ∈ cs.head?, isMantissa c = false ∧ c ≠ '%') :
    expandPercent (n.text ++ cs) = n.text ++ expandPercent cs := by
  have hmantissa : ∀ c ∈ n.mantissa.text, isMantissa c = true :=
    fun c hc => n.mantissa.isMantissa_of_mem hc
  rw [Numeral.text, List.append_assoc]
  cases n.exponent with
  | none =>
      rw [Option.elim_none, List.nil_append, List.append_nil]
      exact expandPercent_run hmantissa fun c hc =>
        ⟨(hhead c hc).1, fun h => absurd h (hhead c hc).2⟩
  | some e =>
      have hmark : ∀ c ∈ (e.text ++ cs).head?, isMantissa c = false ∧
          (c = '%' → n.mantissa.text = []) := by
        intro c hc
        obtain rfl : 'e' = c := by simpa [Exponent.text] using hc
        exact ⟨by decide, by simp⟩
      rw [Option.elim_some, expandPercent_run hmantissa hmark, expandPercent_exponent e hhead,
        List.append_assoc]

theorem Apart.head_of_numeral {n : Numeral} {cs : List Char} (hapart : Apart n.text cs) :
    ∀ c ∈ cs.head?, isMantissa c = false ∧ c ≠ '%' := by
  -- What follows a numeral neither lengthens its digits nor makes it a percentage.
  intro c hc
  have hlast := List.getLast?_eq_some_getLast n.text_ne_nil
  obtain ⟨hwordy, hpercent⟩ := (hapart _ hlast c hc).2 (n.isMantissa_getLast hlast)
  exact ⟨(isWordy_eq_false_iff.1 hwordy).1, hpercent⟩

theorem tokens_numeral_append (n : Numeral) {cs : List Char}
    (hcs : ∀ c ∈ cs.head?, isWordy c = false) :
    tokens (n.text ++ cs) = (.number n.value :: ·) <$> tokens cs := by
  have hrest : ∀ c ∈ (n.exponent.elim [] Exponent.text ++ cs).head?, isMantissa c = false := by
    intro c hc
    cases he : n.exponent with
    | none => exact (isWordy_eq_false_iff.1 (hcs c (by simpa [he] using hc))).1
    | some e =>
        obtain rfl : 'e' = c := by simpa [he, Exponent.text] using hc
        decide
  rw [Numeral.text, List.append_assoc,
    tokens_numeral n.mantissa.text_ne_nil (fun c hc => n.mantissa.isMantissa_of_mem hc) hrest,
    splitExponent_exponent n hcs]
  change numberToken n.text >>= _ = _
  rw [numberToken_text]
  rfl

theorem tokens_letters {w cs : List Char} {t : Token} (hne : w ≠ [])
    (hw : ∀ c ∈ w, c.isAlpha = true) (ht : wordToken (String.ofList w) = .ok t)
    (hcs : ∀ c ∈ w.getLast?, ∀ d ∈ cs.head?, c.isAlpha = true → d.isAlpha = false) :
    tokens (w ++ cs) = (t :: ·) <$> tokens cs := by
  have hlast := List.getLast?_eq_some_getLast hne
  rw [tokens_word hne hw fun d hd => hcs _ hlast d hd (hw _ (List.getLast_mem hne)), ht]
  rfl

theorem tokens_spells {w cs : List Char} {t : Token} (hw : (Lexeme.token t).Spells w)
    (hcs : ∀ c ∈ w.getLast?, ∀ d ∈ cs.head?,
      (c.isAlpha = true → d.isAlpha = false) ∧ (isMantissa c = true → isWordy d = false)) :
    tokens (w ++ cs) = (t :: ·) <$> tokens cs := by
  have halpha : ∀ c ∈ w.getLast?, ∀ d ∈ cs.head?, c.isAlpha = true → d.isAlpha = false :=
    fun c hc d hd => (hcs c hc d hd).1
  cases hl : (Lexeme.token t).isWord with
  | false =>
      obtain ⟨c, u, rfl, hu, hc⟩ := hw.exists_symbol hl
      cases hu
      exact tokens_symbol hc cs
  | true =>
      cases hw with
      | numeral n =>
          have hlast := List.getLast?_eq_some_getLast n.text_ne_nil
          exact tokens_numeral_append n fun d hd =>
            (hcs _ hlast d hd).2 (n.isMantissa_getLast hlast)
      | pi => exact tokens_letters (by decide) isAlpha_of_mem_pi (by decide) halpha
      | euler => exact tokens_letters (by decide) isAlpha_of_mem_euler (by decide) halpha
      | name w hw =>
          obtain ⟨hne, hletters⟩ := isAlpha_of_mem_name hw
          refine tokens_letters hne hletters ?_ halpha
          rw [String.ofList_toList, wordToken_name hw]
      | _ => cases hl

theorem expandPercent_spells {w cs : List Char} {t : Token} (hw : (Lexeme.token t).Spells w)
    (hapart : Apart w cs) :
    expandPercent (w ++ cs) = w ++ expandPercent cs := by
  cases hl : (Lexeme.token t).isWord with
  | false =>
      obtain ⟨c, u, rfl, -, hc⟩ := hw.exists_symbol hl
      exact expandPercent_cons (isMantissa_of_symbolToken? hc) cs
  | true =>
      cases hw with
      | numeral n => exact expandPercent_numeral n hapart.head_of_numeral
      | pi =>
          exact expandPercent_append (fun c hc => isMantissa_eq_false (isAlpha_of_mem_pi c hc)) cs
      | euler =>
          exact expandPercent_append (fun c hc =>
            isMantissa_eq_false (isAlpha_of_mem_euler c hc)) cs
      | name w hw =>
          exact expandPercent_append (fun c hc =>
            isMantissa_eq_false ((isAlpha_of_mem_name hw).2 c hc)) cs
      | _ => cases hl

def hundred : Numeral :=
  ⟨⟨['1', '0', '0'], none, List.all_eq_true.1 (by decide), by decide⟩, none⟩

theorem value_hundred : hundred.value = 100 := by
  decide +kernel

theorem tokens_percentage (m : Mantissa) (cs : List Char) :
    tokens (expandPercent (m.text ++ '%' :: cs)) =
      ((Lexeme.percentage (Numeral.value ⟨m, none⟩)).tokens ++ ·) <$>
        tokens (expandPercent cs) := by
  have hrun : ∀ c ∈ m.text, isMantissa c = true := fun c hc => m.isMantissa_of_mem hc
  have hhundred : ∀ c ∈ hundred.text, isMantissa c = true := List.all_eq_true.1 (by decide)
  have hm : numberToken (m.text ++ []) = .ok (.number (Numeral.value ⟨m, none⟩)) :=
    numberToken_text ⟨m, none⟩
  have h100 : numberToken (hundred.text ++ []) = .ok (.number 100) := by
    rw [List.append_nil, numberToken_text, value_hundred]
  have hexpand : asFraction m.text ++ expandPercent cs =
      '(' :: (m.text ++ '/' :: (hundred.text ++ ')' :: expandPercent cs)) := by
    simp [asFraction, hundred, Numeral.text, Mantissa.text]
  have hslash : ∀ ds : List Char, splitExponent ('/' :: ds) = ([], '/' :: ds) := fun _ => rfl
  have hclosing : ∀ ds : List Char, splitExponent (')' :: ds) = ([], ')' :: ds) := fun _ => rfl
  have hrest : tokens (hundred.text ++ ')' :: expandPercent cs) =
      ([.number 100, .closing] ++ ·) <$> tokens (expandPercent cs) := by
    rw [tokens_numeral (by decide) hhundred (by simp; decide), hclosing, h100, tokens_symbol rfl]
    cases tokens (expandPercent cs) <;> rfl
  rw [expandPercent_percentage m.text_ne_nil hrun, hexpand, tokens_symbol rfl,
    tokens_numeral m.text_ne_nil hrun (by simp; decide), hslash, hm, tokens_symbol rfl, hrest]
  cases tokens (expandPercent cs) <;> rfl

theorem tokens_of_spells {w cs : List Char} {l : Lexeme} (hw : l.Spells w) (hapart : Apart w cs) :
    tokens (expandPercent (w ++ cs)) = (l.tokens ++ ·) <$> tokens (expandPercent cs) := by
  cases l with
  | token t =>
      have hexpanded := hapart.expandPercent
      rw [expandPercent_spells hw hapart, tokens_spells hw fun c hc d hd =>
        ⟨(hexpanded c hc d hd).1, fun hmantissa => ((hexpanded c hc d hd).2 hmantissa).1⟩]
      rfl
  | percentage x =>
      cases hw with
      | percentage m =>
          rw [List.append_assoc]
          exact tokens_percentage m cs

theorem Lexeme.Spells.isLetters {w : List Char} {l : Lexeme} {c : Char} (h : l.Spells w)
    (hc : c ∈ w.head? ∨ c ∈ w.getLast?) (halpha : c.isAlpha = true) : l.isLetters = true := by
  have hmantissa : isMantissa c ≠ true := by simp [isMantissa_eq_false halpha]
  cases hl : l.isWord with
  | false =>
      obtain ⟨d, t, rfl, rfl, hd⟩ := h.exists_symbol hl
      obtain rfl : d = c := by simpa using hc
      have hwordy := (isVisible_of_symbolToken? hd).2
      simp [isWordy, halpha] at hwordy
  | true =>
      cases h with
      | numeral n => exact absurd (hc.elim Mantissa.isMantissa_head n.isMantissa_getLast) hmantissa
      | percentage m =>
          rcases hc with hc | hc
          · exact absurd (Mantissa.isMantissa_head hc) hmantissa
          · obtain rfl : '%' = c := by simpa using hc
            exact absurd halpha (by decide)
      | pi | euler | name => rfl
      | _ => cases hl

theorem Lexeme.Spells.isNumeral {w : List Char} {l : Lexeme} {c : Char} (h : l.Spells w)
    (hc : c ∈ w.getLast?) (hmantissa : isMantissa c = true) : l.isNumeral = true := by
  have halpha : c.isAlpha ≠ true := fun halpha => by simp [isMantissa_eq_false halpha] at hmantissa
  have hmem := List.mem_of_mem_getLast? hc
  have hword : l.isWord = true := h.isWord hmem (by simp [isWordy, hmantissa])
  cases h with
  | numeral n => rfl
  | percentage m =>
      obtain rfl : '%' = c := by simpa using hc
      exact absurd hmantissa (by decide)
  | pi => exact absurd (isAlpha_of_mem_pi c hmem) halpha
  | euler => exact absurd (isAlpha_of_mem_euler c hmem) halpha
  | name w hw => exact absurd ((isAlpha_of_mem_name hw).2 c hmem) halpha
  | _ => cases hword

theorem Writes.exists_spells_of_head? {cs : List Char} {ls : List Lexeme} {d : Char}
    (h : Writes cs ls) (hd : d ∈ cs.head?) (hvisible : IsVisible d) :
    ∃ l ∈ ls.head?, ∃ w, l.Spells w ∧ d ∈ w.head? := by
  cases h with
  | nil => cases hd
  | blank hc h =>
      obtain rfl := Option.mem_some.1 hd
      exact absurd hvisible (not_isVisible_of_isBlank hc)
  | @lexeme w cs l ls hw hpercent h =>
      obtain ⟨c, w, rfl⟩ := List.exists_cons_of_ne_nil hw.ne_nil
      exact ⟨l, rfl, c :: w, hw, by simpa using hd⟩

theorem Writes.apart {w cs : List Char} {l : Lexeme} {ls : List Lexeme} (hw : l.Spells w)
    (hpercent : ∀ c ∈ w.getLast?, isMantissa c = true → cs.head? ≠ some '%') (h : Writes cs ls)
    (hchain : (l :: ls).IsChain Lexeme.Separable) : Apart w cs := by
  intro c hc d hd
  constructor
  · intro halpha
    cases hd' : d.isAlpha with
    | false => rfl
    | true =>
        obtain ⟨m, hm, v, hv, hdv⟩ := h.exists_spells_of_head? hd (isVisible_of_isAlpha hd')
        have hletters := ((List.isChain_cons.1 hchain).1 m hm).1 (hw.isLetters (.inr hc) halpha)
        rw [hv.isLetters (.inl hdv) hd'] at hletters
        cases hletters
  · intro hmantissa
    refine ⟨?_, fun hd' => hpercent c hc hmantissa (hd' ▸ hd)⟩
    cases hd' : isWordy d with
    | false => rfl
    | true =>
        obtain ⟨m, hm, v, hv, hdv⟩ := h.exists_spells_of_head? hd (isVisible_of_isWordy hd')
        have hword := ((List.isChain_cons.1 hchain).1 m hm).2 (hw.isNumeral hc hmantissa)
        rw [hv.isWord (List.mem_of_mem_head? hdv) hd'] at hword
        cases hword

theorem Writes.apart_append {w cs ds : List Char} {l : Lexeme} {ls : List Lexeme} (hw : l.Spells w)
    (hpercent : ∀ c ∈ w.getLast?, isMantissa c = true → cs.head? ≠ some '%') (h : Writes cs ls)
    (hchain : (l :: ls).IsChain Lexeme.Separable)
    (hds : ∀ d ∈ ds.head?, isWordy d = false ∧ d ≠ '%') :
    Apart w (cs ++ ds) := by
  cases cs with
  | cons c cs =>
      have hapart := Writes.apart hw hpercent h hchain
      exact fun b hb d hd => hapart b hb d hd
  | nil => exact .of_head? hds

/-- A writing of separable lexemes, once expanded, is cut into their tokens, whatever follows. -/
theorem tokens_writes_append {cs ds : List Char} {ls : List Lexeme} (h : Writes cs ls)
    (hchain : ls.IsChain Lexeme.Separable) (hds : ∀ d ∈ ds.head?, isWordy d = false ∧ d ≠ '%') :
    tokens (expandPercent (cs ++ ds)) =
      (ls.flatMap Lexeme.tokens ++ ·) <$> tokens (expandPercent ds) := by
  induction h with
  | nil => exact (id_map _).symm
  | blank hc h ih =>
      rw [List.cons_append, expandPercent_cons (isMantissa_of_isBlank hc), tokens_blank hc,
        ih hchain]
  | lexeme hw hpercent h ih =>
      rw [List.append_assoc, tokens_of_spells hw (Writes.apart_append hw hpercent h hchain hds),
        ih (List.isChain_cons.1 hchain).2, Functor.map_map]
      simp only [List.flatMap_cons, List.append_assoc]

theorem tokens_of_writes {cs : List Char} {ls : List Lexeme} (h : Writes cs ls)
    (hchain : ls.IsChain Lexeme.Separable) :
    tokens (expandPercent cs) = .ok (ls.flatMap Lexeme.tokens) := by
  have hall : tokens (expandPercent (cs ++ [])) = _ := tokens_writes_append h hchain (by simp)
  rw [List.append_nil, expandPercent, expandPercent, expandPercentFrom, List.reverse_nil,
    tokens] at hall
  rw [expandPercent, hall]
  exact congrArg Except.ok (List.append_nil _)

end TalkingCalculator
