import TalkingCalculator.Proofs.TextTokens

namespace TalkingCalculator

open Input Lexer

namespace Text

/-- Whether neither the first nor the last character of a text is a blank. -/
def IsTrimmed (cs : List Char) : Prop :=
  (∀ c ∈ cs.head?, isBlank c = false) ∧ ∀ c ∈ cs.getLast?, isBlank c = false

theorem isTrimmed_trim (cs : List Char) : IsTrimmed (trim cs) := by
  refine ⟨fun c hc => ?_, getLast?_dropEndWhile isBlank _⟩
  obtain ⟨run, hrun, -⟩ := exists_of_dropEndWhile isBlank (cs.dropWhile isBlank)
  have hhead : c ∈ (cs.dropWhile isBlank).head? := by
    rw [hrun, List.head?_append,
      show (dropEndWhile isBlank (cs.dropWhile isBlank)).head? = some c from hc]
    rfl
  have hnot := List.head?_dropWhile_not isBlank cs
  rw [Option.mem_def.1 hhead] at hnot
  simpa using hnot

theorem trim_eq_self {cs : List Char} (h : IsTrimmed cs) : trim cs = cs := by
  have hstart : ([] ++ cs).dropWhile isBlank = cs := dropWhile_run (by simp) h.1
  have hend : dropEndWhile isBlank (cs ++ []) = cs := dropEndWhile_append_run h.2 (by simp)
  rw [List.nil_append] at hstart
  rw [List.append_nil] at hend
  rw [trim, hstart, trimEnd, hend]

theorem trim_of_isVisible {cs : List Char} (h : ∀ c ∈ cs, IsVisible c) : trim cs = cs :=
  trim_eq_self ⟨fun c hc => isBlank_eq_false (h c (List.mem_of_mem_head? hc)),
    fun c hc => isBlank_eq_false (h c (List.mem_of_mem_getLast? hc))⟩

end Text

namespace Input

open Text

theorem plain_ne_nil (c : Char) : plain c ≠ [] := by
  unfold plain
  split <;> simp

theorem isBlank_of_mem_plain {c d : Char} (hc : isBlank c = false) (hd : d ∈ plain c) :
    isBlank d = false := by
  unfold plain at hd
  split at hd
  · obtain rfl := List.mem_singleton.1 hd
    decide
  · obtain rfl := List.mem_singleton.1 hd
    decide
  · obtain rfl := List.mem_singleton.1 hd
    decide
  · exact isBlank_eq_false (isVisible_of_isAlpha (isAlpha_of_mem_pi d hd))
  · obtain rfl := List.mem_singleton.1 hd
    exact hc

theorem isTrimmed_replaceGlyphs {cs : List Char} (h : IsTrimmed cs) :
    IsTrimmed (replaceGlyphs cs) := by
  constructor
  · cases cs with
    | nil => simp [replaceGlyphs]
    | cons c cs =>
        intro d hd
        rw [replaceGlyphs, List.flatMap_cons, List.head?_append_of_ne_nil _ (plain_ne_nil c)] at hd
        exact isBlank_of_mem_plain (h.1 c rfl) (List.mem_of_mem_head? hd)
  · rcases List.eq_nil_or_concat cs with rfl | ⟨cs, c, rfl⟩
    · simp [replaceGlyphs]
    · intro d hd
      rw [List.concat_eq_append] at h hd
      rw [replaceGlyphs, List.flatMap_append, List.flatMap_singleton,
        List.getLast?_append_of_ne_nil _ (plain_ne_nil c)] at hd
      exact isBlank_of_mem_plain (h.2 c (by simp)) (List.mem_of_mem_getLast? hd)

/-- A text is a sequence of percentages and of other characters that runs of digits and points
precede. -/
theorem expansion_induction {motive : List Char → Prop}
    (run : ∀ run, (∀ c ∈ run, isMantissa c = true) → motive run)
    (percentage : ∀ run rest, run ≠ [] → (∀ c ∈ run, isMantissa c = true) → motive rest →
      motive (run ++ '%' :: rest))
    (other : ∀ run c rest, (∀ c ∈ run, isMantissa c = true) → isMantissa c = false →
      (c = '%' → run = []) →
      motive rest → motive (run ++ c :: rest)) (cs : List Char) : motive cs := by
  induction hlength : cs.length using Nat.strongRecOn generalizing cs with
  | ind n ih =>
      rcases exists_percentage_or_run cs with
        ⟨ds, rest, rfl, hne, hds⟩ | ⟨ds, rest, rfl, hds, hrest⟩
      · exact percentage ds rest hne hds (ih rest.length (by simp [← hlength]; omega) rest rfl)
      · cases rest with
        | nil => simpa using run ds hds
        | cons c rest =>
            obtain ⟨hc, hpercent⟩ := hrest c rfl
            exact other ds c rest hds hc hpercent
              (ih rest.length (by simp [← hlength]; omega) rest rfl)

theorem expandPercent_of_isMantissa {run : List Char} (hrun : ∀ c ∈ run, isMantissa c = true) :
    expandPercent run = run := by
  have hexpand : expandPercent (run ++ []) = run ++ expandPercent [] :=
    expandPercent_run hrun (by simp)
  have hnil : expandPercent [] = [] := by simp [expandPercent, expandPercentFrom]
  rwa [hnil, List.append_nil] at hexpand

theorem expandPercent_run_cons {run : List Char} {c : Char} (hrun : ∀ c ∈ run, isMantissa c = true)
    (hc : isMantissa c = false) (hpercent : c = '%' → run = []) (cs : List Char) :
    expandPercent (run ++ c :: cs) = run ++ c :: expandPercent cs := by
  have hhead : ∀ d ∈ (c :: cs).head?, isMantissa d = false ∧ (d = '%' → run = []) := by
    intro d hd
    obtain rfl : c = d := by simpa using hd
    exact ⟨hc, hpercent⟩
  rw [expandPercent_run hrun hhead, expandPercent_cons hc]

theorem expandPercent_asFraction {run : List Char} (hrun : ∀ c ∈ run, isMantissa c = true)
    (cs : List Char) :
    expandPercent (asFraction run ++ cs) = asFraction run ++ expandPercent cs := by
  have hhundred : ∀ c ∈ ['1', '0', '0'], isMantissa c = true := List.all_eq_true.1 (by decide)
  have hfraction : ∀ ds : List Char,
      asFraction run ++ ds = '(' :: (run ++ '/' :: (['1', '0', '0'] ++ ')' :: ds)) := by
    simp [asFraction]
  rw [hfraction, hfraction, expandPercent_cons (by decide),
    expandPercent_run_cons hrun (by decide) (by simp),
    expandPercent_run_cons hhundred (by decide) (by simp)]

theorem expandPercent_expandPercent (cs : List Char) :
    expandPercent (expandPercent cs) = expandPercent cs := by
  induction cs using expansion_induction with
  | run run hrun => rw [expandPercent_of_isMantissa hrun, expandPercent_of_isMantissa hrun]
  | percentage run rest hne hrun ih =>
      rw [expandPercent_percentage hne hrun, expandPercent_asFraction hrun, ih]
  | other run c rest hrun hc hpercent ih =>
      rw [expandPercent_run_cons hrun hc hpercent, expandPercent_run_cons hrun hc hpercent, ih]

theorem expandPercent_eq_nil_iff {cs : List Char} : expandPercent cs = [] ↔ cs = [] := by
  rcases exists_percentage_or_run cs with
    ⟨run, rest, rfl, hne, hrun⟩ | ⟨run, rest, rfl, hrun, hrest⟩
  · rw [expandPercent_percentage hne hrun]
    simp [asFraction]
  · cases rest with
    | nil => rw [List.append_nil, expandPercent_of_isMantissa hrun]
    | cons c rest =>
        rw [expandPercent_run_cons hrun (hrest c rfl).1 (hrest c rfl).2]
        simp

theorem getLast?_expandPercent (cs : List Char) :
    ∀ c ∈ (expandPercent cs).getLast?, c = ')' ∨ c ∈ cs.getLast? := by
  have hlast : ∀ (xs : List Char) (x : Char) {ys : List Char}, ys ≠ [] →
      (xs ++ x :: ys).getLast? = ys.getLast? := by
    intro xs x ys hys
    rw [List.append_cons, List.getLast?_append_of_ne_nil _ hys]
  induction cs using expansion_induction with
  | run run hrun =>
      rw [expandPercent_of_isMantissa hrun]
      exact fun c hc => .inr hc
  | percentage run rest hne hrun ih =>
      rw [expandPercent_percentage hne hrun]
      by_cases hrest : rest = []
      · subst hrest
        intro c hc
        rw [expandPercent_eq_nil_iff.2 rfl, List.append_nil,
          show asFraction run = ('(' :: run ++ ['/', '1', '0', '0']) ++ [')'] by
          simp [asFraction], List.getLast?_concat] at hc
        exact .inl (Option.some.inj hc).symm
      · rw [List.getLast?_append_of_ne_nil _ (mt expandPercent_eq_nil_iff.1 hrest), hlast _ _ hrest]
        exact ih
  | other run c rest hrun hc hpercent ih =>
      rw [expandPercent_run_cons hrun hc hpercent]
      by_cases hrest : rest = []
      · rw [hrest, expandPercent_eq_nil_iff.2 rfl]
        exact fun d hd => .inr hd
      · rw [hlast _ _ (mt expandPercent_eq_nil_iff.1 hrest), hlast _ _ hrest]
        exact ih

theorem isTrimmed_expandPercent {cs : List Char} (h : IsTrimmed cs) :
    IsTrimmed (expandPercent cs) := by
  constructor
  · intro c hc
    rcases head?_expandPercent cs c hc with rfl | hc
    · decide
    · exact h.1 c hc
  · intro c hc
    rcases getLast?_expandPercent cs c hc with rfl | hc
    · decide
    · exact h.2 c hc

theorem isVisible_or_isBlank_of_isPermitted {c : Char} (h : isPermitted c = true) :
    IsVisible c ∨ isBlank c = true := by
  simp only [isPermitted, Bool.or_eq_true, List.contains_iff_mem] at h
  rcases h with (h | h) | h
  · exact .inl (isVisible_of_isDigit h)
  · have hsigns : ∀ c ∈ ['.', '+', '-', '*', '/', '%', '(', ')', ','], IsVisible c := by
      simp [IsVisible]
    exact .inl (hsigns c h)
  · exact .inr h

theorem isVisible_or_isBlank_of_isPiece {w : List Char} (h : IsPiece w) :
    ∀ c ∈ w, IsVisible c ∨ isBlank c = true := by
  rcases h with ⟨c, rfl, hc⟩ | h
  · intro d hd
    obtain rfl := List.mem_singleton.1 hd
    exact isVisible_or_isBlank_of_isPermitted hc
  · have hnames : ∀ w ∈ names, ∀ c ∈ w, IsVisible c := by simp [names, IsVisible]
    exact fun c hc => .inl (hnames w h c hc)

theorem isVisible_or_isBlank_of_isSequence {cs : List Char} (h : isSequence cs = true) :
    ∀ c ∈ cs, IsVisible c ∨ isBlank c = true := by
  obtain ⟨pieces, hpieces, rfl⟩ := isSequence_iff.1 h
  intro c hc
  obtain ⟨w, hw, hcw⟩ := List.mem_flatten.1 hc
  exact isVisible_or_isBlank_of_isPiece (hpieces w hw) c hcw

end Input

theorem prepare_eq_ok_iff {s p : String} :
    prepare s = .ok p ↔ p.toList = expandPercent (replaceGlyphs (Text.trim s.toList)) ∧
      p.toList ≠ [] ∧ isSequence p.toList = true := by
  constructor
  · intro h
    have hp := eq_of_prepare_eq_ok h
    rw [prepare] at h
    split at h
    · cases h
    · obtain ⟨_, hcheck, -⟩ := exists_of_bind_eq_ok h
      rw [← hp, check] at hcheck
      split at hcheck
      · next hp' => exact ⟨by rw [hp, String.toList_ofList], hp'⟩
      · cases hcheck
  · rintro ⟨hp, hne, hsequence⟩
    have htrim : Text.trim s.toList ≠ [] := by
      intro hnil
      rw [hnil] at hp
      exact hne hp
    have hcheck : check p = .ok () := if_pos ⟨hne, hsequence⟩
    simp only [prepare, if_neg htrim, ← hp, String.ofList_toList, hcheck]
    rfl

theorem textTokens_eq_ok_iff {s : String} {ts : List Token} :
    textTokens s = .ok ts ↔
      expandPercent (replaceGlyphs (Text.trim s.toList)) ≠ [] ∧
        isSequence (expandPercent (replaceGlyphs (Text.trim s.toList))) = true ∧
        tokens (expandPercent (replaceGlyphs (Text.trim s.toList))) = .ok ts := by
  constructor
  · intro h
    obtain ⟨p, hprepared, htokens⟩ := exists_of_bind_eq_ok h
    obtain ⟨hp, hne, hsequence⟩ := prepare_eq_ok_iff.1 hprepared
    rw [← hp]
    exact ⟨hne, hsequence, htokens⟩
  · rintro ⟨hne, hsequence, htokens⟩
    have hprepared : prepare s =
        .ok (String.ofList (expandPercent (replaceGlyphs (Text.trim s.toList)))) := by
      rw [prepare_eq_ok_iff, String.toList_ofList]
      exact ⟨rfl, hne, hsequence⟩
    rw [textTokens, hprepared]
    change tokenize _ = _
    rwa [tokenize, String.toList_ofList]

theorem prepare_of_prepare {s p : String} (h : prepare s = .ok p) : prepare p = .ok p := by
  obtain ⟨hp, hne, hsequence⟩ := prepare_eq_ok_iff.1 h
  have htrimmed : Text.IsTrimmed p.toList := by
    rw [hp]
    exact isTrimmed_expandPercent (isTrimmed_replaceGlyphs (Text.isTrimmed_trim _))
  refine prepare_eq_ok_iff.2 ⟨?_, hne, hsequence⟩
  rw [Text.trim_eq_self htrimmed,
    replaceGlyphs_of_isVisible (isVisible_or_isBlank_of_isSequence hsequence), hp,
    expandPercent_expandPercent]

end TalkingCalculator
