import TalkingCalculator.Proofs.Characters
import TalkingCalculator.Proofs.Numeral

namespace TalkingCalculator.Lexer

theorem symbolToken?_symbol (op : BinaryOperator) :
    symbolToken? op.symbol = some (.operator op) := by
  cases op <;> decide

theorem symbolToken?_eq_some {c : Char} {t : Token} (h : symbolToken? c = some t) :
    c = '(' ∧ t = .opening ∨ c = ')' ∧ t = .closing ∨ c = ',' ∧ t = .comma ∨
      ∃ op : BinaryOperator, c = op.symbol ∧ t = .operator op := by
  unfold symbolToken? at h
  split at h
  · exact .inl ⟨rfl, by simpa [eq_comm] using h⟩
  · exact .inr (.inl ⟨rfl, by simpa [eq_comm] using h⟩)
  · exact .inr (.inr (.inl ⟨rfl, by simpa [eq_comm] using h⟩))
  · obtain ⟨op, hop, rfl⟩ := Option.map_eq_some_iff.1 h
    have hsymbol := List.find?_some hop
    exact .inr (.inr (.inr ⟨op, (of_decide_eq_true hsymbol).symm, rfl⟩))

def isWordy (c : Char) : Bool :=
  isMantissa c || c.isAlpha

theorem isVisible_of_symbolToken? {c : Char} {t : Token} (h : symbolToken? c = some t) :
    IsVisible c ∧ isWordy c = false := by
  rcases symbolToken?_eq_some h with ⟨rfl, -⟩ | ⟨rfl, -⟩ | ⟨rfl, -⟩ | ⟨op, rfl, -⟩
  · decide
  · decide
  · decide
  · cases op <;> decide

theorem isWordy_eq_false_iff {c : Char} :
    isWordy c = false ↔ isMantissa c = false ∧ c.isAlpha = false :=
  Bool.or_eq_false_iff

theorem isMantissa_of_symbolToken? {c : Char} {t : Token} (h : symbolToken? c = some t) :
    isMantissa c = false :=
  (isWordy_eq_false_iff.1 (isVisible_of_symbolToken? h).2).1

theorem isVisible_of_isWordy {c : Char} (h : isWordy c = true) : IsVisible c := by
  rcases Bool.or_eq_true .. ▸ h with h | h
  · exact isVisible_of_isMantissa h
  · exact isVisible_of_isAlpha h

theorem symbolToken?_eq_none {c : Char} (h : isWordy c = true) : symbolToken? c = none := by
  cases hc : symbolToken? c with
  | none => rfl
  | some t =>
      rw [(isVisible_of_symbolToken? hc).2] at h
      cases h

theorem isMantissa_eq_false {c : Char} (h : c.isAlpha = true) : isMantissa c = false := by
  rw [isAlpha_iff] at h
  have h9 : ('9' : Char).val.toNat = 0x39 := rfl
  have hdigit : c.isDigit = false := by
    simp only [Char.isDigit, Bool.and_eq_false_iff, decide_eq_false_iff_not, ge_iff_le,
      UInt32.le_iff_toNat_le]
    rw [Char.toNat] at h
    omega
  have hpoint : c ≠ '.' := by
    rintro rfl
    exact absurd h (by decide)
  simp [isMantissa, hdigit, hpoint]

theorem tokens_blank {c : Char} (hc : Text.isBlank c = true) (cs : List Char) :
    tokens (c :: cs) = tokens cs := by
  rw [tokens, if_pos hc]

theorem tokens_symbol {c : Char} {t : Token} (h : symbolToken? c = some t) (cs : List Char) :
    tokens (c :: cs) = (t :: ·) <$> tokens cs := by
  have hblank := isBlank_eq_false (isVisible_of_symbolToken? h).1
  rw [tokens, hblank, h]
  rfl

theorem tokens_word {w cs : List Char} (hne : w ≠ []) (hw : ∀ c ∈ w, c.isAlpha = true)
    (hcs : ∀ c ∈ cs.head?, c.isAlpha = false) :
    tokens (w ++ cs) = wordToken (String.ofList w) >>= fun t => (t :: ·) <$> tokens cs := by
  obtain ⟨c, w, rfl⟩ := List.exists_cons_of_ne_nil hne
  have hc : c.isAlpha = true := hw c (by simp)
  have hrest : ∀ d ∈ w, d.isAlpha = true := fun d hd => hw d (by simp [hd])
  have hwordy : isWordy c = true := by simp [isWordy, hc]
  have hblank := isBlank_eq_false (isVisible_of_isWordy hwordy)
  rw [List.cons_append, tokens, hblank, symbolToken?_eq_none hwordy, takeWhile_run hrest hcs,
    dropWhile_run hrest hcs]
  simp only [Bool.false_eq_true, if_false, hc, if_true]
  rfl

theorem tokens_numeral {run cs : List Char} (hne : run ≠ []) (hrun : ∀ c ∈ run, isMantissa c = true)
    (hcs : ∀ c ∈ cs.head?, isMantissa c = false) :
    tokens (run ++ cs) =
      numberToken (run ++ (splitExponent cs).1) >>= fun t =>
        (t :: ·) <$> tokens (splitExponent cs).2 := by
  obtain ⟨c, run, rfl⟩ := List.exists_cons_of_ne_nil hne
  have hc : isMantissa c = true := hrun c (by simp)
  have hrest : ∀ d ∈ run, isMantissa d = true := fun d hd => hrun d (by simp [hd])
  have hwordy : isWordy c = true := by simp [isWordy, hc]
  have hblank := isBlank_eq_false (isVisible_of_isWordy hwordy)
  have halpha : c.isAlpha = false := by
    cases h : c.isAlpha with
    | false => rfl
    | true => simp [isMantissa_eq_false h] at hc
  rw [List.cons_append, tokens, hblank, symbolToken?_eq_none hwordy, takeWhile_run hrest hcs,
    dropWhile_run hrest hcs]
  simp only [Bool.false_eq_true, if_false, hc, halpha, if_true]
  rfl

theorem splitExponent_of_head? {cs : List Char} (h : ∀ c ∈ cs.head?, c ≠ 'e') :
    splitExponent cs = ([], cs) := by
  unfold splitExponent
  split
  · exact absurd rfl (h 'e' (by simp))
  · rfl

theorem splitExponent_text (e : Exponent) {cs : List Char}
    (hcs : ∀ c ∈ cs.head?, c.isDigit = false) :
    splitExponent (e.text ++ cs) = (e.text, cs) := by
  have hhead : ∀ c ∈ (e.digits ++ cs).head?, c.isDigit = true := by
    intro c hc
    obtain ⟨d, ds, hds⟩ := List.exists_cons_of_ne_nil e.ne_nil
    obtain rfl : d = c := by simpa [hds] using hc
    exact e.isDigit d (by simp [hds])
  simp only [Exponent.text, List.cons_append, List.append_assoc, splitExponent,
    Decimal.splitSign_append_digits e.sign_mem hhead, takeWhile_run e.isDigit hcs,
    dropWhile_run e.isDigit hcs]
  rw [if_neg e.ne_nil]

theorem numberToken_text (n : Numeral) : numberToken n.text = .ok (.number n.value) := by
  rw [numberToken, n.read?_text]
  rfl

end TalkingCalculator.Lexer
