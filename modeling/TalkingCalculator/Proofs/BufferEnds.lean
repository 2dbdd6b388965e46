import TalkingCalculator.Proofs.PostfixOperands
import TalkingCalculator.Proofs.PreparedTexts
import TalkingCalculator.Session.Buffer

namespace TalkingCalculator

open Input Lexer

theorem exists_last_of_replaceGlyphs {cs before : List Char} {d : Char}
    (h : replaceGlyphs cs = before ++ [d]) (hd : d ∉ ['*', '/', '-']) :
    ∃ cs' c, cs = cs' ++ [c] ∧ (c = d ∧ replaceGlyphs cs' = before ∨ c = 'π' ∧ d = 'I') := by
  rcases List.eq_nil_or_concat cs with rfl | ⟨cs, c, rfl⟩
  · simp [replaceGlyphs] at h
  · refine ⟨cs, c, by simp, ?_⟩
    have hplain : replaceGlyphs [c] = plain c := List.append_nil _
    rw [List.concat_eq_append, replaceGlyphs_append, hplain] at h
    unfold plain at h
    split at h
    case h_4 =>
      have hlast : ((replaceGlyphs cs ++ ['P']) ++ ['I']).getLast? = (before ++ [d]).getLast? := by
        rw [← h, List.append_assoc]
        rfl
      exact .inr ⟨rfl, by simpa [eq_comm] using hlast⟩
    case h_5 =>
      obtain ⟨hbefore, hlast⟩ := List.append_inj' h rfl
      exact .inl ⟨by simpa using hlast, hbefore⟩
    all_goals
      obtain ⟨-, hlast⟩ := List.append_inj' h rfl
      obtain rfl := (List.cons_eq_cons.1 hlast).1
      exact absurd (by decide) hd

namespace Text

theorem trimEnd_replaceGlyphs (cs : List Char) :
    trimEnd (replaceGlyphs cs) = replaceGlyphs (trimEnd cs) := by
  obtain ⟨run, hcs, hrun⟩ := exists_of_dropEndWhile isBlank cs
  have hlast : ∀ d ∈ (replaceGlyphs (trimEnd cs)).getLast?, isBlank d = false := by
    intro d hd
    obtain ⟨before, hbefore⟩ := List.getLast?_eq_some_iff.1 hd
    by_cases hop : d ∈ ['*', '/', '-']
    · simp only [List.mem_cons, List.not_mem_nil, or_false] at hop
      rcases hop with rfl | rfl | rfl <;> decide
    · obtain ⟨cs', c, hcs', ⟨rfl, -⟩ | ⟨-, rfl⟩⟩ := exists_last_of_replaceGlyphs hbefore hop
      · exact getLast?_dropEndWhile isBlank cs c (List.getLast?_eq_some_iff.2 ⟨cs', hcs'⟩)
      · decide
  have hsplit : replaceGlyphs cs = replaceGlyphs (trimEnd cs) ++ run := by
    conv_lhs => rw [hcs]
    rw [replaceGlyphs_append, replaceGlyphs_of_isVisible fun c hc => .inr (hrun c hc)]
    rfl
  rw [hsplit]
  exact dropEndWhile_append_run hlast hrun

end Text

namespace Buffer

variable {cs kept : List Char} {c : Char}

theorem endsWithValue_iff (h : Text.trimEnd cs = kept ++ [c]) :
    endsWithValue cs = true ↔ c = 'I' ∧ kept.getLast? = some 'P' ∨ isMantissa c = true ∨ c = ')' ∨
      c = 'e' := by
  have hsuffix : ['P', 'I'] <:+ kept ++ [c] ↔ c = 'I' ∧ kept.getLast? = some 'P' := by
    constructor
    · rintro ⟨before, hbefore⟩
      have hsplit : before ++ ['P'] ++ ['I'] = kept ++ [c] := by simpa using hbefore
      obtain ⟨hkept, hc⟩ := List.append_inj' hsplit rfl
      exact ⟨by simpa [eq_comm] using hc, List.getLast?_eq_some_iff.2 ⟨before, hkept.symm⟩⟩
    · rintro ⟨rfl, hlast⟩
      obtain ⟨before, rfl⟩ := List.getLast?_eq_some_iff.1 hlast
      exact ⟨before, by simp⟩
  simp only [endsWithValue, h, List.getLast?_concat, Option.any_some, Bool.or_eq_true,
    List.isSuffixOf_iff_suffix, hsuffix, decide_eq_true_eq]
  simp only [or_assoc]

theorem endsWithValue_eq_false
    (h : ∀ d ∈ (Text.trimEnd (replaceGlyphs cs)).getLast?, isWordy d = false ∧ d ≠ ')') :
    endsWithValue cs = false := by
  rcases List.eq_nil_or_concat (Text.trimEnd cs) with hnil | ⟨kept, c, hkept⟩
  · simp [endsWithValue, hnil]
  · rw [List.concat_eq_append] at hkept
    rw [Bool.eq_false_iff, Ne, endsWithValue_iff hkept]
    intro hvalue
    have hvisible : IsVisible c := by
      rcases hvalue with ⟨rfl, -⟩ | hmantissa | rfl | rfl
      · decide
      · exact isVisible_of_isMantissa hmantissa
      · decide
      · decide
    have hsame : replaceGlyphs [c] = [c] :=
      replaceGlyphs_of_isVisible (by simpa using Or.inl hvisible)
    rw [Text.trimEnd_replaceGlyphs, hkept, replaceGlyphs_append, hsame, List.getLast?_concat] at h
    obtain ⟨hwordy, hclosing⟩ := h c rfl
    rw [isWordy_eq_false_iff] at hwordy
    rcases hvalue with ⟨rfl, -⟩ | hmantissa | rfl | rfl
    · exact absurd hwordy.2 (by decide)
    · exact absurd hmantissa (by simp [hwordy.1])
    · exact hclosing rfl
    · exact absurd hwordy.2 (by decide)

theorem endsWithValue_of_awaitsOperand {ls : List Lexeme} (h : Writes (replaceGlyphs cs) ls)
    (hlast : ∀ l ∈ ls.getLast?, l.awaitsOperand = true) : endsWithValue cs = false := by
  refine endsWithValue_eq_false fun d hd => ?_
  rcases List.eq_nil_or_concat ls with rfl | ⟨ls, l, rfl⟩
  · have hnil : Text.trimEnd (replaceGlyphs cs) = [] :=
      List.rdropWhile_eq_nil_iff.2 h.isBlank_of_mem
    rw [hnil] at hd
    cases hd
  · rw [List.concat_eq_append] at h hlast
    obtain ⟨before, w, hw, hspells⟩ := h.exists_of_concat
    rw [hw, List.getLast?_append_of_ne_nil _ hspells.ne_nil] at hd
    have hl : l.awaitsOperand = true := hlast l (by simp)
    cases hspells with
    | operator op =>
        obtain rfl : op.symbol = d := by simpa using hd
        cases op <;> decide
    | opening | comma =>
        obtain rfl := Option.some.inj hd
        decide
    | _ => cases hl

end Buffer

namespace Lexeme

theorem Spells.exists_last {w : List Char} {l : Lexeme} (h : l.Spells w)
    (hl : l.closesValue = true) :
    ∃ before d, w = before ++ [d] ∧
      (isMantissa d = true ∨ l.isNumeral = false ∧
        (d = '%' ∨ d = 'I' ∧ before = ['P'] ∨ d = 'e' ∨ d = ')')) := by
  cases h with
  | numeral n =>
      obtain ⟨before, d, hd⟩ := List.eq_nil_or_concat n.text |>.resolve_left n.text_ne_nil
      rw [List.concat_eq_append] at hd
      exact ⟨before, d, hd, .inl (n.isMantissa_getLast (by simp [hd]))⟩
  | percentage m => exact ⟨m.text, '%', rfl, .inr ⟨rfl, .inl rfl⟩⟩
  | pi => exact ⟨['P'], 'I', rfl, .inr ⟨rfl, .inr (.inl ⟨rfl, rfl⟩)⟩⟩
  | euler => exact ⟨[], 'e', rfl, .inr ⟨rfl, .inr (.inr (.inl rfl))⟩⟩
  | closing => exact ⟨[], ')', rfl, .inr ⟨rfl, .inr (.inr (.inr rfl))⟩⟩
  | _ => cases hl

end Lexeme

namespace Buffer

variable {cs : List Char} {l : Lexeme} {ls : List Lexeme}

theorem exists_last_of_closesValue (h : Writes (replaceGlyphs cs) (ls ++ [l]))
    (hl : l.closesValue = true) :
    ∃ kept c, Text.trimEnd cs = kept ++ [c] ∧
      (endsWithValue cs = true ∨ l.isNumeral = false ∧ (c = '%' ∨ c = 'π')) := by
  obtain ⟨before, w, hw, hspells⟩ := h.exists_of_concat
  obtain ⟨v, d, rfl, hd⟩ := hspells.exists_last hl
  rw [Text.trimEnd_replaceGlyphs, ← List.append_assoc] at hw
  -- Three glyphs are replaced by operators, which end no value, so only the glyph of the constant
  -- can be hidden in `d`.
  have hsymbol : d ∉ ['*', '/', '-'] := by
    intro hmem
    obtain ⟨hmantissa, hpercent, hI, he, hclosing⟩ :
        isMantissa d = false ∧ d ≠ '%' ∧ d ≠ 'I' ∧ d ≠ 'e' ∧ d ≠ ')' := by
      simp only [List.mem_cons, List.not_mem_nil, or_false] at hmem
      rcases hmem with rfl | rfl | rfl <;> decide
    rcases hd with hd | ⟨-, hd | ⟨hd, -⟩ | hd | hd⟩
    · rw [hmantissa] at hd
      cases hd
    · exact hpercent hd
    · exact hI hd
    · exact he hd
    · exact hclosing hd
  obtain ⟨kept, c, hkept, ⟨rfl, hbefore⟩ | ⟨rfl, rfl⟩⟩ := exists_last_of_replaceGlyphs hw hsymbol
  · refine ⟨kept, c, hkept, ?_⟩
    rw [endsWithValue_iff hkept]
    rcases hd with hd | ⟨hnumeral, rfl | ⟨rfl, rfl⟩ | rfl | rfl⟩
    · exact .inl (.inr (.inl hd))
    · exact .inr ⟨hnumeral, .inl rfl⟩
    · obtain ⟨kept', p, rfl, ⟨rfl, -⟩ | ⟨-, hp⟩⟩ := exists_last_of_replaceGlyphs hbefore (by decide)
      · exact .inl (.inl ⟨rfl, by simp⟩)
      · cases hp
    · exact .inl (.inr (.inr (.inr rfl)))
    · exact .inl (.inr (.inr (.inl rfl)))
  · refine ⟨kept, 'π', hkept, .inr ⟨?_, .inr rfl⟩⟩
    rcases hd with hd | ⟨hnumeral, -⟩
    · exact absurd hd (by decide)
    · exact hnumeral

end Buffer

end TalkingCalculator
