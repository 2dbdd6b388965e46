import TalkingCalculator.Proofs.FaultKinds

namespace TalkingCalculator

open Lexer

namespace Input

section Glyphs

theorem plain_eq_singleton_or (c : Char) :
    plain c = [c] ∨ ∀ d ∈ plain c, d ∈ ['*', '/', '-', 'P', 'I'] := by
  unfold plain
  split
  case h_5 => exact .inl rfl
  all_goals exact .inr (by simp)

theorem plain_of_mem_plain {c d : Char} (hd : d ∈ plain c) : plain d = [d] := by
  rcases plain_eq_singleton_or c with hc | hc
  · rw [hc] at hd
    rw [List.mem_singleton.1 hd, hc]
  · have hplain : ∀ d ∈ ['*', '/', '-', 'P', 'I'], plain d = [d] := by simp [plain]
    exact hplain d (hc d hd)

theorem isMantissa_of_mem_plain {c d : Char} (hc : isMantissa c = false) (hd : d ∈ plain c) :
    isMantissa d = false ∧ (d = '%' → c = '%') := by
  rcases plain_eq_singleton_or c with hplain | hplain
  · rw [hplain] at hd
    rw [List.mem_singleton.1 hd]
    exact ⟨hc, id⟩
  · have hsigns : ∀ d ∈ ['*', '/', '-', 'P', 'I'], isMantissa d = false ∧ d ≠ '%' := by
      simp [isMantissa]
    obtain ⟨hmantissa, hpercent⟩ := hsigns d (hplain d hd)
    exact ⟨hmantissa, fun h => absurd h hpercent⟩

theorem replaceGlyphs_cons (c : Char) (cs : List Char) :
    replaceGlyphs (c :: cs) = plain c ++ replaceGlyphs cs :=
  List.flatMap_cons

theorem replaceGlyphs_eq_self {cs : List Char} (h : ∀ c ∈ cs, plain c = [c]) :
    replaceGlyphs cs = cs := by
  induction cs with
  | nil => rfl
  | cons c cs ih =>
      rw [List.forall_mem_cons] at h
      rw [replaceGlyphs_cons, h.1, ih h.2]
      rfl

theorem replaceGlyphs_replaceGlyphs (cs : List Char) :
    replaceGlyphs (replaceGlyphs cs) = replaceGlyphs cs := by
  refine replaceGlyphs_eq_self fun d hd => ?_
  obtain ⟨c, -, hd⟩ := List.mem_flatMap.1 hd
  exact plain_of_mem_plain hd

theorem replaceGlyphs_of_isMantissa {run : List Char} (hrun : ∀ c ∈ run, isMantissa c = true) :
    replaceGlyphs run = run :=
  replaceGlyphs_of_isVisible fun c hc => .inl (isVisible_of_isMantissa (hrun c hc))

theorem replaceGlyphs_asFraction {run : List Char} (hrun : ∀ c ∈ run, isMantissa c = true) :
    replaceGlyphs (asFraction run) = asFraction run := by
  rw [asFraction, List.cons_append, replaceGlyphs_cons, replaceGlyphs_append,
    replaceGlyphs_of_isMantissa hrun]
  rfl

theorem expandPercent_replaceGlyphs (cs : List Char) :
    expandPercent (replaceGlyphs cs) = replaceGlyphs (expandPercent cs) := by
  induction cs using expansion_induction with
  | run run hrun =>
      rw [replaceGlyphs_of_isMantissa hrun, expandPercent_of_isMantissa hrun,
        replaceGlyphs_of_isMantissa hrun]
  | percentage run rest hne hrun ih =>
      rw [replaceGlyphs_append, replaceGlyphs_of_isMantissa hrun, replaceGlyphs_cons,
        expandPercent_percentage hne hrun, replaceGlyphs_append, replaceGlyphs_asFraction hrun,
        ← ih, ← expandPercent_percentage hne hrun]
      rfl
  | other run c rest hrun hc hpercent ih =>
      have hhead : ∀ d ∈ (plain c ++ replaceGlyphs rest).head?, isMantissa d = false ∧
          (d = '%' → run = []) := by
        intro d hd
        rw [List.head?_append_of_ne_nil _ (plain_ne_nil c)] at hd
        obtain ⟨hmantissa, hsign⟩ := isMantissa_of_mem_plain hc (List.mem_of_mem_head? hd)
        exact ⟨hmantissa, hpercent ∘ hsign⟩
      rw [expandPercent_run_cons hrun hc hpercent, replaceGlyphs_append, replaceGlyphs_append,
        replaceGlyphs_of_isMantissa hrun, replaceGlyphs_cons, replaceGlyphs_cons,
        expandPercent_run hrun hhead, expandPercent_append fun d hd =>
          (isMantissa_of_mem_plain hc hd).1, ih]

end Glyphs

section Percentages

/-- Whether no percent sign of a text directly follows a digit or a point. -/
def HasNoPercentage (cs : List Char) : Prop :=
  cs.IsChain fun c d => d = '%' → isMantissa c = false

instance (cs : List Char) : Decidable (HasNoPercentage cs) :=
  inferInstanceAs (Decidable (cs.IsChain _))

/-- `Expands cs ds` says that `ds` is the text `cs` with a quotient in parentheses for each
percentage, which is a longest run of digits and points with a percent sign right after it. The gaps
between percentages stay. -/
inductive Expands : List Char → List Char → Prop
  | gap {gap : List Char} (hgap : HasNoPercentage gap) : Expands gap gap
  | percentage {gap run cs ds : List Char} (hgap : HasNoPercentage gap)
      (hend : ∀ c ∈ gap.getLast?, isMantissa c = false)
      (hne : run ≠ []) (hrun : ∀ c ∈ run, isMantissa c = true) (h : Expands cs ds) :
      Expands (gap ++ run ++ '%' :: cs) (gap ++ asFraction run ++ ds)

theorem hasNoPercentage_of_not_mem {cs : List Char} (h : '%' ∉ cs) : HasNoPercentage cs := by
  induction cs with
  | nil => exact .nil
  | cons c cs ih =>
      rw [List.mem_cons, not_or] at h
      refine List.isChain_cons.2 ⟨?_, ih h.2⟩
      rintro d hd rfl
      exact absurd (List.mem_of_mem_head? hd) h.2

theorem not_mem_run {run : List Char} (hrun : ∀ c ∈ run, isMantissa c = true) : '%' ∉ run :=
  fun hmem => absurd (hrun '%' hmem) (by decide)

theorem hasNoPercentage_run_cons_iff {run rest : List Char} {c : Char}
    (hrun : ∀ c ∈ run, isMantissa c = true) (hc : isMantissa c = false)
    (hpercent : c = '%' → run = []) :
    HasNoPercentage (run ++ c :: rest) ↔ HasNoPercentage rest := by
  have hbefore : HasNoPercentage run := hasNoPercentage_of_not_mem (not_mem_run hrun)
  rw [HasNoPercentage, List.isChain_append, List.isChain_cons]
  refine ⟨fun h => h.2.1.2, fun h => ⟨hbefore, ⟨fun _ _ _ => hc, h⟩, ?_⟩⟩
  rintro d hd c' hc' rfl
  obtain rfl : c = '%' := by simpa using hc'
  rw [hpercent rfl] at hd
  cases hd

theorem not_hasNoPercentage_percentage {run rest : List Char} (hne : run ≠ [])
    (hrun : ∀ c ∈ run, isMantissa c = true) :
    ¬ HasNoPercentage (run ++ '%' :: rest) := by
  intro h
  have hlast :=
    (List.isChain_append.1 h).2.2 (run.getLast hne) (List.getLast?_eq_some_getLast hne) '%' rfl rfl
  rw [hrun _ (List.getLast_mem hne)] at hlast
  cases hlast

theorem expandPercent_gap_append {gap cs : List Char} (hgap : HasNoPercentage gap)
    (hborder : ∀ c ∈ gap.getLast?, isMantissa c = true →
      ∀ d ∈ cs.head?, isMantissa d = false ∧ d ≠ '%') :
    expandPercent (gap ++ cs) = gap ++ expandPercent cs := by
  induction gap using expansion_induction with
  | run run hrun =>
      by_cases hne : run = []
      · rw [hne]
        rfl
      · have hhead :=
          hborder (run.getLast hne) (List.getLast?_eq_some_getLast hne)
            (hrun _ (List.getLast_mem hne))
        exact expandPercent_run hrun fun d hd => ⟨(hhead d hd).1, fun h => absurd h (hhead d hd).2⟩
  | percentage run rest hne hrun ih => exact absurd hgap (not_hasNoPercentage_percentage hne hrun)
  | other run c rest hrun hc hpercent ih =>
      have hrest : ∀ d ∈ rest.getLast?, d ∈ (run ++ c :: rest).getLast? := by
        intro d hd
        have hne : rest ≠ [] := by
          rintro rfl
          cases hd
        rwa [List.append_cons, List.getLast?_append_of_ne_nil _ hne]
      rw [List.append_assoc, List.cons_append, expandPercent_run_cons hrun hc hpercent,
        ih ((hasNoPercentage_run_cons_iff hrun hc hpercent).1 hgap) fun d hd =>
          hborder d (hrest d hd), List.append_assoc,
        List.cons_append]

theorem expandPercent_of_hasNoPercentage {cs : List Char} (h : HasNoPercentage cs) :
    expandPercent cs = cs := by
  have happend : expandPercent (cs ++ []) = cs ++ expandPercent [] :=
    expandPercent_gap_append h (by simp)
  rwa [expandPercent_eq_nil_iff.2 rfl, List.append_nil] at happend

theorem hasNoPercentage_expandPercent (cs : List Char) : HasNoPercentage (expandPercent cs) := by
  induction cs using expansion_induction with
  | run run hrun =>
      rw [expandPercent_of_isMantissa hrun]
      exact hasNoPercentage_of_not_mem (not_mem_run hrun)
  | percentage run rest hne hrun ih =>
      have hhundred : ∀ c ∈ ['1', '0', '0'], isMantissa c = true := by simp [isMantissa]
      rw [expandPercent_percentage hne hrun]
      change HasNoPercentage ([] ++ '(' :: (run ++ ['/', '1', '0', '0', ')'] ++ expandPercent rest))
      rw [hasNoPercentage_run_cons_iff (by simp) (by decide) (by simp), List.append_assoc]
      change HasNoPercentage (run ++ '/' :: (['1', '0', '0'] ++ ')' :: expandPercent rest))
      rw [hasNoPercentage_run_cons_iff hrun (by decide) (by simp),
        hasNoPercentage_run_cons_iff hhundred (by decide) (by simp)]
      exact ih
  | other run c rest hrun hc hpercent ih =>
      rw [expandPercent_run_cons hrun hc hpercent, hasNoPercentage_run_cons_iff hrun hc hpercent]
      exact ih

theorem Expands.cons {run cs ds : List Char} {c : Char} (hrun : ∀ c ∈ run, isMantissa c = true)
    (hc : isMantissa c = false) (hpercent : c = '%' → run = []) (h : Expands cs ds) :
    Expands (run ++ c :: cs) (run ++ c :: ds) := by
  cases h with
  | gap hgap => exact .gap ((hasNoPercentage_run_cons_iff hrun hc hpercent).2 hgap)
  | @percentage gap run' cs ds hgap hend hne hrun' h =>
      have hgap' := (hasNoPercentage_run_cons_iff hrun hc hpercent).2 hgap
      have hend' : ∀ d ∈ (run ++ c :: gap).getLast?, isMantissa d = false := by
        intro d hd
        cases hlast : gap.getLast? with
        | none =>
            rw [List.getLast?_eq_none_iff.1 hlast, List.getLast?_concat] at hd
            exact Option.some.inj hd ▸ hc
        | some e =>
            rw [List.append_cons, List.getLast?_append, hlast] at hd
            exact hend d (hlast.trans hd)
      simpa using Expands.percentage hgap' hend' hne hrun' h

theorem expands_iff {cs ds : List Char} : Expands cs ds ↔ ds = expandPercent cs := by
  constructor
  · intro h
    induction h with
    | gap hgap => exact (expandPercent_of_hasNoPercentage hgap).symm
    | @percentage gap run cs ds hgap hend hne hrun h ih =>
        have hborder : ∀ c ∈ gap.getLast?, isMantissa c = true →
            ∀ d ∈ (run ++ '%' :: cs).head?, isMantissa d = false ∧ d ≠ '%' := by
          intro c hc hmantissa
          rw [hend c hc] at hmantissa
          cases hmantissa
        rw [List.append_assoc gap run, expandPercent_gap_append hgap hborder,
          expandPercent_percentage hne hrun, ih, List.append_assoc]
  · rintro rfl
    induction cs using expansion_induction with
    | run run hrun =>
        rw [expandPercent_of_isMantissa hrun]
        exact .gap (hasNoPercentage_of_not_mem (not_mem_run hrun))
    | percentage run rest hne hrun ih =>
        rw [expandPercent_percentage hne hrun]
        exact .percentage .nil (by simp) hne hrun ih
    | other run c rest hrun hc hpercent ih =>
        rw [expandPercent_run_cons hrun hc hpercent]
        exact ih.cons hrun hc hpercent

end Percentages

theorem check_expandPercent_iff (cs : List Char) :
    check (String.ofList (expandPercent cs)) = .ok () ↔ check (String.ofList cs) = .ok () := by
  have hsequence := isSequence_append_expandPercent [] cs
  rw [List.nil_append, List.nil_append] at hsequence
  have hok : ∀ ds : List Char, check (String.ofList ds) = .ok () ↔
      ds ≠ [] ∧ isSequence ds = true := by
    intro ds
    rw [check, String.toList_ofList]
    split
    · next h => simp [h]
    · next h => simp [h]
  rw [hok, hok, hsequence, ne_eq, expandPercent_eq_nil_iff]

end Input

open Input

/-- Each pass of the preparation is stable under repetition and the two can be exchanged; the
expansion replaces exactly the percentages, which leaves none, and does not change whether a text is
permitted; and a prepared text is prepared already. -/
theorem preparation_is_stable (s : String) :
    replaceGlyphs (replaceGlyphs s.toList) = replaceGlyphs s.toList ∧
      expandPercent (expandPercent s.toList) = expandPercent s.toList ∧
      expandPercent (replaceGlyphs s.toList) = replaceGlyphs (expandPercent s.toList) ∧
      (∀ ds, Expands s.toList ds ↔ ds = expandPercent s.toList) ∧
      HasNoPercentage (expandPercent s.toList) ∧
      (check (String.ofList (expandPercent s.toList)) = .ok () ↔ check s = .ok ()) ∧
      ∀ p, prepare s = .ok p → prepare p = .ok p := by
  have hcheck := check_expandPercent_iff s.toList
  rw [String.ofList_toList] at hcheck
  exact ⟨replaceGlyphs_replaceGlyphs _, expandPercent_expandPercent _,
    expandPercent_replaceGlyphs _, fun _ => expands_iff, hasNoPercentage_expandPercent _, hcheck,
      fun _ => prepare_of_prepare⟩

theorem preparation_is_stable_percentages :
    Expands "1.2.5%%×3".toList "(1.2.5/100)%×3".toList ∧
    prepare " 1.2.5%%×3" = .ok "(1.2.5/100)%*3" ∧
      prepare "(1.2.5/100)%*3" = .ok "(1.2.5/100)%*3" := by
  have hprepared : prepare " 1.2.5%%×3" = .ok "(1.2.5/100)%*3" := by decide +kernel
  exact ⟨((preparation_is_stable "1.2.5%%×3").2.2.2.1 _).2 (by decide +kernel), hprepared,
    (preparation_is_stable " 1.2.5%%×3").2.2.2.2.2.2 _ hprepared⟩

end TalkingCalculator
