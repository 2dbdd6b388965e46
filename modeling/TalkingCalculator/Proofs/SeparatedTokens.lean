import Mathlib.Data.List.Basic
import TalkingCalculator.Proofs.Lexing

namespace TalkingCalculator

namespace Lexer

section Stops

variable {p : Char → Bool} {w : Char}

theorem forall_head?_append (hw : p w = false) {rest : List Char}
    (hrest : ∀ c ∈ rest.head?, p c = false) (cs : List Char) :
    ∀ c ∈ (rest ++ w :: cs).head?, p c = false := by
  cases rest with
  | nil => simpa using hw
  | cons d rest => simpa using hrest

theorem takeWhile_append_stop (hw : p w = false) (as bs : List Char) :
    (as ++ w :: bs).takeWhile p = as.takeWhile p := by
  obtain ⟨run, rest, rfl, hrun, hrest⟩ := exists_run p as
  rw [List.append_assoc, takeWhile_run hrun (forall_head?_append hw hrest bs),
    takeWhile_run hrun hrest]

theorem dropWhile_append_stop (hw : p w = false) (as bs : List Char) :
    (as ++ w :: bs).dropWhile p = as.dropWhile p ++ w :: bs := by
  obtain ⟨run, rest, rfl, hrun, hrest⟩ := exists_run p as
  rw [List.append_assoc, dropWhile_run hrun (forall_head?_append hw hrest bs),
    dropWhile_run hrun hrest]

end Stops

section Blank

variable {w : Char} (hw : Text.isBlank w = true)

include hw

theorem isAlpha_of_isBlank : w.isAlpha = false := by
  rw [Bool.eq_false_iff]
  exact fun halpha => not_isVisible_of_isBlank hw (isVisible_of_isAlpha halpha)

theorem isDigit_of_isBlank : w.isDigit = false := by
  rw [Bool.eq_false_iff]
  exact fun hdigit => not_isVisible_of_isBlank hw (isVisible_of_isDigit hdigit)

theorem ne_of_isBlank {c : Char} (hc : IsVisible c) : w ≠ c := by
  rintro rfl
  exact not_isVisible_of_isBlank hw hc

theorem splitSign_append_blank (as bs : List Char) :
    Decimal.splitSign (as ++ w :: bs) =
      ((Decimal.splitSign as).1, (Decimal.splitSign as).2 ++ w :: bs) := by
  cases as with
  | nil =>
      refine Decimal.splitSign_of_head? fun c hc => ?_
      obtain rfl : w = c := by simpa using hc
      exact ⟨ne_of_isBlank hw (by decide), ne_of_isBlank hw (by decide)⟩
  | cons c as =>
      by_cases hsign : c = '+' ∨ c = '-'
      · rcases hsign with rfl | rfl <;> rfl
      · have hhead : ∀ ds : List Char, ∀ d ∈ (c :: ds).head?, d ≠ '+' ∧ d ≠ '-' := by
          intro ds d hd
          obtain rfl : c = d := by simpa using hd
          exact not_or.1 hsign
        rw [List.cons_append, Decimal.splitSign_of_head? (hhead _),
          Decimal.splitSign_of_head? (hhead as)]
        rfl

theorem splitExponent_append_blank (as bs : List Char) :
    splitExponent (as ++ w :: bs) = ((splitExponent as).1, (splitExponent as).2 ++ w :: bs) := by
  -- Neither the mark of an exponent nor its sign looks beyond a blank for a digit.
  by_cases hmark : as.head? = some 'e'
  · obtain ⟨as, rfl⟩ := List.head?_eq_some_iff.1 hmark
    simp only [List.cons_append, splitExponent, splitSign_append_blank hw,
      takeWhile_append_stop (isDigit_of_isBlank hw), dropWhile_append_stop (isDigit_of_isBlank hw)]
    split <;> rfl
  · have has : ∀ c ∈ as.head?, c ≠ 'e' := by
      rintro c hc rfl
      exact hmark hc
    have hall : ∀ c ∈ (as ++ w :: bs).head?, c ≠ 'e' := by
      cases as with
      | nil => simpa using ne_of_isBlank hw (by decide)
      | cons c as => simpa using has
    rw [splitExponent_of_head? has, splitExponent_of_head? hall]

theorem tokens_append_blank (as bs : List Char) :
    tokens (as ++ w :: bs) = do let ts ← tokens as; let us ← tokens bs; return ts ++ us := by
  fun_induction tokens as with
  | case1 =>
      rw [List.nil_append, tokens_blank hw]
      exact (bind_pure (tokens bs)).symm
  | case2 c cs hc ih => rw [List.cons_append, tokens_blank hc, ih]
  | case3 c cs hc t ht ih =>
      rw [List.cons_append, tokens_symbol ht, ih]
      simp only [map_eq_pure_bind, bind_assoc, pure_bind, List.cons_append]
  | case4 c cs hc hsymbol halpha ih =>
      rw [List.cons_append, tokens, if_neg hc, hsymbol]
      simp only [if_pos halpha, takeWhile_append_stop (isAlpha_of_isBlank hw),
        dropWhile_append_stop (isAlpha_of_isBlank hw), ih, bind_assoc, pure_bind, List.cons_append]
  | case5 c cs hc hsymbol halpha hmantissa rest ih =>
      rw [List.cons_append, tokens, if_neg hc, hsymbol]
      simp only [rest] at ih ⊢
      simp only [if_neg halpha, if_pos hmantissa, takeWhile_append_stop (isMantissa_of_isBlank hw),
        dropWhile_append_stop (isMantissa_of_isBlank hw), splitExponent_append_blank hw, ih,
        bind_assoc, pure_bind, List.cons_append]
  | case6 c cs hc hsymbol halpha hmantissa =>
      rw [List.cons_append, tokens, if_neg hc, hsymbol]
      simp only [if_neg halpha, if_neg hmantissa]
      rfl

end Blank

end Lexer

/-- A blank between two texts separates their tokens: the first text is read as if it stood alone,
then the second one is. -/
theorem blank_separates_tokens (a b : String) {w : Char} (hw : Text.isBlank w = true) :
    tokenize (a ++ String.singleton w ++ b) = do
      let ts ← tokenize a
      let us ← tokenize b
      return ts ++ us := by
  have htext : (a ++ String.singleton w ++ b).toList = a.toList ++ w :: b.toList := by simp
  rw [tokenize, htext, Lexer.tokens_append_blank hw]
  rfl

theorem blank_separates_tokens_exponent :
    Text.isBlank '\u00A0' = true ∧
      tokenize "1e+\u00A05" = .ok [.number 1, .euler, .operator .add, .number 5] ∧
      tokenize "1e+\u00A0sine" = .error (.failure (.unknownWord "sine")) := by
  have hblank : Text.isBlank '\u00A0' = true := by decide
  exact ⟨hblank, (blank_separates_tokens "1e+" "5" hblank).trans (by decide +kernel),
    (blank_separates_tokens "1e+" "sine" hblank).trans (by decide +kernel)⟩

end TalkingCalculator
