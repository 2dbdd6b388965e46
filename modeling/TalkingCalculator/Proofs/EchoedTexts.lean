import TalkingCalculator.Expression.Lexer
import TalkingCalculator.Words.Reading
import TalkingCalculator.Proofs.Numeral

namespace TalkingCalculator

open Text Lexer

/-- What follows the minus of a text, or the text itself if it has none. -/
def withoutMinus : List Char → List Char
  | '-' :: cs => cs
  | cs => cs

/-- A number as it is written without an exponent: digits with at most one point, perhaps after a
minus. -/
def IsPlainNumber (cs : List Char) : Prop :=
  withoutMinus cs ≠ [] ∧ (withoutMinus cs).all isMantissa = true ∧ (withoutMinus cs).count '.' ≤ 1

instance (cs : List Char) : Decidable (IsPlainNumber cs) :=
  inferInstanceAs (Decidable (_ ∧ _ ∧ _))

theorem withoutMinus_of_ne {c : Char} (hc : c ≠ '-') (cs : List Char) :
    withoutMinus (c :: cs) = c :: cs := by
  unfold withoutMinus
  split
  · next h => exact absurd (List.cons_eq_cons.1 h).1 hc
  · rfl

namespace Lexicon

variable {lexicon : Lexicon}

/-- Whether a text has words of its own: a key has a name, an undefined or infinite number too, and
the digits of a plain number are said in words. -/
def IsReadable (lexicon : Lexicon) (cs : List Char) : Prop :=
  (lexicon.keyName? (String.ofList cs)).isSome ∨
    String.ofList cs ∈ ["NaN", "Infinity", "-Infinity"] ∨ IsPlainNumber cs

instance (lexicon : Lexicon) (cs : List Char) : Decidable (lexicon.IsReadable cs) :=
  inferInstanceAs (Decidable (_ ∨ _ ∨ _))

theorem readChars_of_trim_eq_nil {cs : List Char} (h : trim cs = []) :
    lexicon.readChars cs = "" := by
  rw [readChars]
  split
  · rfl
  · next hcons =>
      rw [h] at hcons
      cases hcons

theorem readChars_of_trim {cs rest : List Char} {c : Char} (h : trim cs = c :: rest) :
    lexicon.readChars cs =
      (lexicon.keyName? (String.ofList (c :: rest))).getD
        (if String.ofList (c :: rest) = "NaN" then lexicon.undefined
        else if String.ofList (c :: rest) = "Infinity" then lexicon.infinity
        else if Number.isScientific (String.ofList (c :: rest)) then String.ofList (c :: rest)
        else if c = '-' then lexicon.negative ++ " " ++ lexicon.readChars rest
        else (lexicon.readUnsigned? (c :: rest)).getD (String.ofList (c :: rest))) := by
  rw [readChars]
  split
  · next hnil =>
      rw [h] at hnil
      cases hnil
  · next d tail hcons =>
      rw [h] at hcons
      obtain ⟨rfl, rfl⟩ := List.cons_eq_cons.1 hcons
      dsimp only
      split
      · next hname =>
          rw [hname]
          rfl
      · next hname =>
          rw [hname]
          rfl

theorem isDigit_of_readWhole? {cs : List Char} {words : String}
    (h : lexicon.readWhole? cs = some words) :
    ∀ c ∈ cs, c.isDigit = true := by
  rw [readWhole?] at h
  split at h
  · next hnil => simp [hnil]
  · split at h
    · next hdigits => exact List.all_eq_true.1 hdigits.1
    · cases h

theorem isMantissa_of_readUnsigned? {cs : List Char} {words : String}
    (h : lexicon.readUnsigned? cs = some words) :
    (∀ c ∈ cs, isMantissa c = true) ∧ cs.count '.' ≤ 1 := by
  have hdigits : ∀ ds : List Char, (∀ c ∈ ds, c.isDigit = true) →
      (∀ c ∈ ds, isMantissa c = true) ∧ ds.count '.' = 0 := by
    intro ds hds
    refine ⟨fun c hc => by rw [isMantissa, hds c hc, Bool.true_or],
      List.count_eq_zero.2 fun hpoint => ?_⟩
    exact absurd (hds '.' hpoint) (by decide)
  obtain ⟨whole, rest, rfl, hwhole, hrest⟩ := exists_run (fun c => decide (c ≠ '.')) cs
  rw [readUnsigned?, dropWhile_run hwhole hrest, takeWhile_run hwhole hrest] at h
  cases rest with
  | nil =>
      rw [List.append_nil] at h ⊢
      obtain ⟨hmantissa, hcount⟩ := hdigits _ (isDigit_of_readWhole? h)
      exact ⟨hmantissa, by omega⟩
  | cons c fraction =>
      obtain rfl : c = '.' := by simpa using hrest c rfl
      dsimp only at h
      split at h
      · next hfraction =>
          obtain ⟨whole', hwhole', -⟩ := Option.map_eq_some_iff.1 h
          obtain ⟨hmantissa, hcount⟩ := hdigits _ (isDigit_of_readWhole? hwhole')
          obtain ⟨hmantissa', hcount'⟩ := hdigits _ (List.all_eq_true.1 hfraction)
          have hpoints : (whole ++ '.' :: fraction).count '.' = 0 + (0 + 1) := by
            rw [List.count_append, List.count_cons_self, hcount, hcount']
          exact ⟨List.forall_mem_append.2 ⟨hmantissa,
            List.forall_mem_cons.2 ⟨by decide, hmantissa'⟩⟩, Nat.le_of_eq hpoints⟩
      · cases h

theorem readChars_of_not_isReadable {cs : List Char} (h : ¬ lexicon.IsReadable (trim cs)) :
    lexicon.readChars cs =
      if (trim cs).head? = some '-' ∧ Number.isScientific (String.ofList (trim cs)) = false then
        lexicon.negative ++ " " ++ lexicon.readChars (trim cs).tail
      else String.ofList (trim cs) := by
  cases htrim : trim cs with
  | nil =>
      rw [readChars_of_trim_eq_nil htrim]
      rfl
  | cons c rest =>
      rw [htrim, IsReadable, not_or, not_or, Bool.not_eq_true, Option.isSome_eq_false_iff,
        Option.isNone_iff_eq_none] at h
      obtain ⟨hkey, hspecial, hnumber⟩ := h
      simp only [List.mem_cons, List.not_mem_nil, or_false, not_or] at hspecial
      rw [readChars_of_trim htrim, hkey, Option.getD_none, if_neg hspecial.1, if_neg hspecial.2.1,
        List.head?_cons, List.tail_cons]
      by_cases hscientific : Number.isScientific (String.ofList (c :: rest)) = true
      · rw [if_pos hscientific,
          if_neg fun hhead => Bool.false_ne_true (hhead.2.symm.trans hscientific)]
      · rw [if_neg hscientific]
        rw [Bool.not_eq_true] at hscientific
        by_cases hminus : c = '-'
        · rw [if_pos hminus, if_pos ⟨congrArg some hminus, hscientific⟩]
        · rw [if_neg hminus, if_neg fun hhead => hminus (Option.some.inj hhead.1)]
          -- A text without a minus has words only if it is made of digits with at most one point,
          -- and then it is a plain number.
          cases hwords : lexicon.readUnsigned? (c :: rest) with
          | none => rfl
          | some words =>
              refine absurd ?_ hnumber
              obtain ⟨hmantissa, hcount⟩ := isMantissa_of_readUnsigned? hwords
              rw [IsPlainNumber, withoutMinus_of_ne hminus]
              exact ⟨by simp, List.all_eq_true.2 hmantissa, hcount⟩

end Lexicon

theorem Language.exists_head_negative (language : Language) :
    ∃ c, language.lexicon.negative.toList.head? = some c ∧ c ≠ '-' := by
  cases language with
  | persian => exact ⟨'م', by decide⟩
  | english => exact ⟨'n', by decide⟩

/-- A text that has no words of its own is said as it stands, unless it begins with a minus and has
no exponent. Then the minus is said in words and the rest is read by itself. -/
theorem unreadable_is_echoed_iff (language : Language) (s : String)
    (h : ¬ language.lexicon.IsReadable (trim s.toList)) :
    (language.lexicon.read s = trimmed s ↔
      ¬ ((trim s.toList).head? = some '-' ∧ Number.isScientific (trimmed s) = false)) ∧
      ((trim s.toList).head? = some '-' ∧ Number.isScientific (trimmed s) = false →
        language.lexicon.read s =
          language.lexicon.negative ++ " " ++ language.lexicon.readChars (trim s.toList).tail) := by
  have hread := Lexicon.readChars_of_not_isReadable h
  change language.lexicon.read s = _ at hread
  rw [trimmed, hread]
  split
  · next hminus =>
      refine ⟨⟨fun hecho => ?_, fun hnot => absurd hminus hnot⟩, fun _ => rfl⟩
      obtain ⟨c, hc, hne⟩ := language.exists_head_negative
      have hhead := congrArg (fun t : String => t.toList.head?) hecho
      simp only [String.toList_append, List.head?_append, hc, Option.some_or, String.toList_ofList,
        hminus.1] at hhead
      exact absurd (Option.some.inj hhead) hne
  · next hplain => exact ⟨iff_of_true rfl hplain, fun hminus => absurd hminus hplain⟩

theorem unreadable_is_echoed_iff_points :
    ¬ Lexicon.english.IsReadable (trim " 1.2.3 ".toList) ∧
    Lexicon.english.read " 1.2.3 " = "1.2.3" ∧
      ¬ Lexicon.persian.IsReadable (trim "-2e+x".toList) ∧
      Lexicon.persian.read "-2e+x" = "-2e+x" := by
  have hpoints : ¬ Lexicon.english.IsReadable (trim " 1.2.3 ".toList) := by decide
  have hexponent : ¬ Lexicon.persian.IsReadable (trim "-2e+x".toList) := by decide
  exact ⟨hpoints, (unreadable_is_echoed_iff .english " 1.2.3 " hpoints).1.2 (by decide), hexponent,
    (unreadable_is_echoed_iff .persian "-2e+x" hexponent).1.2 (by decide)⟩

/-- A minus before a text without words is said in words. -/
theorem minus_is_not_echoed :
    ¬ Lexicon.english.IsReadable (trim "-abc".toList) ∧
    Lexicon.english.read "-abc" = "negative abc" ∧
      Lexicon.english.read "-abc" ≠ trimmed "-abc" := by
  have hread : Lexicon.english.read "-abc" = "negative abc" := by decide +kernel
  refine ⟨by decide, hread, ?_⟩
  rw [hread]
  decide

end TalkingCalculator
