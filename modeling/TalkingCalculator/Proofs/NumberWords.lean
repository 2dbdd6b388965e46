import TalkingCalculator.Words.Numeral

namespace TalkingCalculator.Lexicon

theorem mem_of_mem_intersperse {α : Type} {separator x : α} {xs : List α}
    (h : x ∈ xs.intersperse separator) :
    x ∈ xs ∨ x = separator := by
  induction xs with
  | nil => cases h
  | cons y ys ih =>
      cases ys with
      | nil => exact .inl h
      | cons z ys =>
          rw [List.intersperse_cons_cons, List.mem_cons, List.mem_cons] at h
          rcases h with rfl | rfl | h
          · exact .inl List.mem_cons_self
          · exact .inr rfl
          · exact (ih h).imp_left (List.mem_cons_of_mem y)

/-- Whether the entries that the words of a number below a thousand are taken from all have a
property. -/
structure GroupWords (lexicon : Lexicon) (P : String → Prop) : Prop where
  units : ∀ n, (h : n < 10) → n ≠ 0 → P lexicon.units[n]
  teens : ∀ n, (h : n < 10) → P lexicon.teens[n]
  tens : ∀ n, (h : n < 10) → n ≠ 0 → P lexicon.tens[n]
  hundreds : ∀ n, (h : n < 10) → n ≠ 0 → P lexicon.hundreds[n]
  conjunction : P lexicon.conjunction

namespace GroupWords

variable {lexicon : Lexicon} {P : String → Prop} (hwords : lexicon.GroupWords P)

include hwords

theorem partsBelowHundred {n : Nat} (hn : n < 100) : ∀ w ∈ lexicon.partsBelowHundred n, P w := by
  intro w hw
  rw [Lexicon.partsBelowHundred] at hw
  split at hw
  · obtain rfl := List.mem_singleton.1 hw
    exact hwords.teens _ _
  · rcases List.mem_append.1 hw with hw | hw
    · split at hw
      · cases hw
      · obtain rfl := List.mem_singleton.1 hw
        exact hwords.tens _ _ (by omega)
    · split at hw
      · cases hw
      · obtain rfl := List.mem_singleton.1 hw
        exact hwords.units _ _ (by omega)

theorem partsBelowThousand {n : Nat} (hn : n < 1000) : ∀ w ∈ lexicon.partsBelowThousand n, P w := by
  intro w hw
  rcases List.mem_append.1 hw with hw | hw
  · split at hw
    · cases hw
    · obtain rfl := List.mem_singleton.1 hw
      exact hwords.hundreds _ _ (by omega)
  · exact hwords.partsBelowHundred (by omega) w hw

theorem group {n : Nat} (hn : n < 1000) : ∀ w ∈ lexicon.group n, P w := by
  intro w hw
  rcases mem_of_mem_intersperse hw with hw | rfl
  · exact hwords.partsBelowThousand hn w hw
  · exact hwords.conjunction

end GroupWords

/-- Whether the entries that the words of numbers are taken from all have a property. -/
structure NumberWords (lexicon : Lexicon) (P : String → Prop) : Prop where
  units : ∀ n, (h : n < 10) → n ≠ 0 → P lexicon.units[n]
  teens : ∀ n, (h : n < 10) → P lexicon.teens[n]
  tens : ∀ n, (h : n < 10) → n ≠ 0 → P lexicon.tens[n]
  hundreds : ∀ n, (h : n < 10) → n ≠ 0 → P lexicon.hundreds[n]
  scales : ∀ w ∈ [lexicon.trillion, lexicon.billion, lexicon.million, lexicon.thousand], P w
  conjunction : P lexicon.conjunction
  zero : P lexicon.zero

namespace NumberWords

variable {lexicon : Lexicon} {P : String → Prop} (hwords : lexicon.NumberWords P)

include hwords

theorem groupWords : lexicon.GroupWords P :=
  ⟨hwords.units, hwords.teens, hwords.tens, hwords.hundreds, hwords.conjunction⟩

theorem imp {Q : String → Prop} (h : ∀ w, P w → Q w) : lexicon.NumberWords Q where
  units n hn hpos := h _ (hwords.units n hn hpos)
  teens n hn := h _ (hwords.teens n hn)
  tens n hn hpos := h _ (hwords.tens n hn hpos)
  hundreds n hn hpos := h _ (hwords.hundreds n hn hpos)
  scales w hw := h w (hwords.scales w hw)
  conjunction := h _ hwords.conjunction
  zero := h _ hwords.zero

theorem scaledGroup {n : Nat} (hn : n < 1000) {scale : List String} (hscale : ∀ w ∈ scale, P w) :
    ∀ ws ∈ lexicon.scaledGroup n scale, ∀ w ∈ ws, P w := by
  intro ws hws w hw
  rw [Lexicon.scaledGroup] at hws
  split at hws
  · cases hws
  · obtain rfl := List.mem_singleton.1 hws
    rcases List.mem_append.1 hw with hw | hw
    · exact hwords.groupWords.group hn w hw
    · exact hscale w hw

theorem groups (n : Nat) : ∀ ws ∈ lexicon.groups n, ∀ w ∈ ws, P w := by
  have hscale : ∀ scale ∈ [lexicon.billion, lexicon.million, lexicon.thousand], ∀ w ∈ [scale],
      P w := by
    intro scale hmem w hw
    obtain rfl := List.mem_singleton.1 hw
    exact hwords.scales w (List.mem_cons_of_mem _ hmem)
  intro ws hws
  rw [Lexicon.groups, List.mem_append, List.mem_append, List.mem_append] at hws
  rcases hws with ((hws | hws) | hws) | hws
  · exact hwords.scaledGroup (by omega) (hscale _ (by simp)) ws hws
  · exact hwords.scaledGroup (by omega) (hscale _ (by simp)) ws hws
  · exact hwords.scaledGroup (by omega) (hscale _ (by simp)) ws hws
  · exact hwords.scaledGroup (by omega) (by simp) ws hws

theorem joined {groups : List (List String)} (h : ∀ ws ∈ groups, ∀ w ∈ ws, P w) :
    ∀ w ∈ [lexicon.conjunction].intercalate groups, P w := by
  intro w hw
  obtain ⟨ws, hws, hw⟩ := List.mem_flatten.1 hw
  rcases mem_of_mem_intersperse hws with hws | rfl
  · exact h ws hws w hw
  · obtain rfl := List.mem_singleton.1 hw
    exact hwords.conjunction

theorem positiveWords (n : Nat) : ∀ w ∈ lexicon.positiveWords n, P w := by
  induction n using Nat.strongRecOn with
  | ind n ih =>
      rw [Lexicon.positiveWords]
      split
      · exact hwords.joined (hwords.groups n)
      · refine hwords.joined (List.forall_mem_cons.2 ⟨fun w hw => ?_, hwords.groups _⟩)
        rcases List.mem_append.1 hw with hw | hw
        · exact ih _ (by omega) w hw
        · obtain rfl := List.mem_singleton.1 hw
          exact hwords.scales _ (by simp)

theorem wholeWords (n : Nat) : ∀ w ∈ lexicon.wholeWords n, P w := by
  rw [Lexicon.wholeWords]
  split
  · simpa using hwords.zero
  · exact hwords.positiveWords n

end NumberWords

end TalkingCalculator.Lexicon
