import TalkingCalculator.Proofs.ContinuedResults
import TalkingCalculator.Proofs.EchoedTexts
import TalkingCalculator.Proofs.HeardNumerals
import TalkingCalculator.Proofs.NumberWords

namespace TalkingCalculator

open Text

namespace Text

theorem isBlank_append_iff {s t : String} : IsBlank (s ++ t) ↔ IsBlank s ∧ IsBlank t := by
  simp only [IsBlank, String.toList_append, List.mem_append, or_imp, forall_and]

theorem not_isBlank_intercalate {separator w : String} {ws : List String} (hw : w ∈ ws)
    (h : ¬ IsBlank w) :
    ¬ IsBlank (separator.intercalate ws) := by
  induction ws with
  | nil => cases hw
  | cons v ws ih =>
      cases ws with
      | nil =>
          obtain rfl := List.mem_singleton.1 hw
          simpa using h
      | cons v' ws =>
          rw [String.intercalate_cons_cons, isBlank_append_iff, isBlank_append_iff]
          rintro ⟨⟨hv, -⟩, hws⟩
          rcases List.mem_cons.1 hw with rfl | hw
          · exact h hv
          · exact ih hw hws

theorem not_isBlank_of_trim {cs rest : List Char} {c : Char} (h : trim cs = c :: rest) :
    ¬ IsBlank (String.ofList (c :: rest)) := by
  have hvisible := (isTrimmed_trim cs).1 c (by rw [h]; rfl)
  intro hblank
  rw [hblank c (by simp)] at hvisible
  cases hvisible

end Text

namespace Lexicon

/-- Whether no word that is said is blank. The entries of zero in the tables of units, tens and
hundreds never are. -/
structure IsAudible (lexicon : Lexicon) : Prop where
  digits : ∀ n, (h : n < 10) → ¬ IsBlank lexicon.digits[n]
  keys : ∀ entry ∈ lexicon.keys, ¬ IsBlank entry.2
  units : ∀ n, (h : n < 10) → n ≠ 0 → ¬ IsBlank lexicon.units[n]
  teens : ∀ n, (h : n < 10) → ¬ IsBlank lexicon.teens[n]
  tens : ∀ n, (h : n < 10) → n ≠ 0 → ¬ IsBlank lexicon.tens[n]
  hundreds : ∀ n, (h : n < 10) → n ≠ 0 → ¬ IsBlank lexicon.hundreds[n]
  scales : ∀ w ∈ [lexicon.trillion, lexicon.billion, lexicon.million, lexicon.thousand], ¬ IsBlank w
  conjunction : ¬ IsBlank lexicon.conjunction
  zero : ¬ IsBlank lexicon.zero
  negative : ¬ IsBlank lexicon.negative
  infinity : ¬ IsBlank lexicon.infinity
  undefined : ¬ IsBlank lexicon.undefined

variable {lexicon : Lexicon}

namespace IsAudible

variable (haudible : lexicon.IsAudible)

include haudible

theorem keyName? {key name : String} (h : lexicon.keyName? key = some name) : ¬ IsBlank name := by
  have hkeys : lexicon.keys.lookup key = some name → ¬ IsBlank name := by
    intro hlookup
    obtain ⟨before, after, hsplit, -⟩ := List.lookup_eq_some_iff.1 hlookup
    exact haudible.keys (key, name) (by simp [hsplit])
  unfold Lexicon.keyName? at h
  split at h
  · split at h
    · obtain ⟨hlt, rfl⟩ := Vector.getElem?_eq_some_iff.1 h
      exact haudible.digits _ hlt
    · exact hkeys h
  · exact hkeys h

theorem numberWords : lexicon.NumberWords fun w => ¬ IsBlank w :=
  ⟨haudible.units, haudible.teens, haudible.tens, haudible.hundreds, haudible.scales,
    haudible.conjunction, haudible.zero⟩

variable (hclear : lexicon.IsClear)

include hclear

theorem whole (n : Nat) : ¬ IsBlank (lexicon.whole n) := by
  obtain ⟨w, hw⟩ := List.exists_mem_of_ne_nil _ (hclear.wholeWords_ne_nil n)
  exact not_isBlank_intercalate hw (haudible.numberWords.wholeWords n w hw)

theorem readWhole? {cs : List Char} {words : String} (h : lexicon.readWhole? cs = some words) :
    ¬ IsBlank words := by
  rw [Lexicon.readWhole?] at h
  split at h
  · obtain rfl := Option.some.inj h
    exact haudible.zero
  · split at h
    · obtain rfl := Option.some.inj h
      exact haudible.whole hclear _
    · cases h

theorem readUnsigned? {cs : List Char} {words : String}
    (h : lexicon.readUnsigned? cs = some words) : ¬ IsBlank words := by
  rw [Lexicon.readUnsigned?] at h
  split at h
  · exact haudible.readWhole? hclear h
  · split at h
    · obtain ⟨whole, hwhole, rfl⟩ := Option.map_eq_some_iff.1 h
      exact not_isBlank_intercalate List.mem_cons_self (haudible.readWhole? hclear hwhole)
    · cases h

theorem readChars {cs : List Char} (h : trim cs ≠ []) : ¬ IsBlank (lexicon.readChars cs) := by
  obtain ⟨c, rest, htrim⟩ := List.exists_cons_of_ne_nil h
  have htext := not_isBlank_of_trim htrim
  rw [readChars_of_trim htrim]
  cases hname : lexicon.keyName? (String.ofList (c :: rest)) with
  | some name => exact haudible.keyName? hname
  | none =>
      rw [Option.getD_none]
      split
      · exact haudible.undefined
      · split
        · exact haudible.infinity
        · split
          · exact htext
          · split
            · rw [isBlank_append_iff, isBlank_append_iff]
              exact fun hblank => haudible.negative hblank.1.1
            · cases hwords : lexicon.readUnsigned? (c :: rest) with
              | none => exact htext
              | some words => exact haudible.readUnsigned? hclear hwords

end IsAudible

end Lexicon

theorem Language.isAudible_lexicon (language : Language) : language.lexicon.IsAudible := by
  cases language with
  | persian => constructor <;> decide +kernel
  | english => constructor <;> decide +kernel

theorem Number.not_isBlank_text (x : Float) : ¬ IsBlank (text x) := by
  by_cases hfinite : IsFinite x
  · obtain ⟨negative, n, htext⟩ := exists_numeral_of_isFinite hfinite
    rw [IsBlank, ← trim_eq_nil_iff, trim_of_isVisible (isVisible_of_mem_text hfinite), htext]
    exact List.append_ne_nil_of_right_ne_nil _ n.text_ne_nil
  · rw [text, if_pos hfinite]
    split
    · decide
    · split <;> decide

theorem Language.not_isBlank_read (language : Language) {s : String} (h : ¬ IsBlank s) :
    ¬ IsBlank (language.lexicon.read s) :=
  language.isAudible_lexicon.readChars language.isClear_lexicon (mt (trim_eq_nil_iff _).1 h)

theorem Language.not_isBlank_readNumber (language : Language) (x : Float) :
    ¬ IsBlank (language.lexicon.readNumber x) := by
  have haudible := language.isAudible_lexicon
  rw [Lexicon.readNumber]
  split
  · exact haudible.undefined
  · split
    · split
      · rw [isBlank_append_iff]
        exact fun hblank => haudible.infinity hblank.2
      · exact haudible.infinity
    · exact language.not_isBlank_read (Number.not_isBlank_text x)

end TalkingCalculator
