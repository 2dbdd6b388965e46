import TalkingCalculator.Proofs.ConversionFaults
import TalkingCalculator.Proofs.RecalledOperands
import TalkingCalculator.Proofs.StablePreparation

namespace TalkingCalculator

open Input Lexer

namespace Input

theorem isAlpha_of_mem_names : ∀ w ∈ names, ∀ c ∈ w, c.isAlpha = true := by
  simp [names]

theorem isPermitted_eq_false {c : Char} (h : c.isAlpha = true) : isPermitted c = false := by
  have hdigit : c.isDigit = false := not_isDigit_of_isMantissa_eq_false (isMantissa_eq_false h)
  have hblank : Text.isBlank c = false := isBlank_eq_false (isVisible_of_isAlpha h)
  have hsigns : ∀ d ∈ ['.', '+', '-', '*', '/', '%', '(', ')', ','], d.isAlpha = false := by simp
  rw [isPermitted, hdigit, hblank, Bool.false_or, Bool.or_false, ← Bool.not_eq_true,
    List.contains_iff_mem]
  intro hc
  rw [hsigns c hc] at h
  cases h

theorem eq_singleton_of_isPiece {w : List Char} {c : Char} (hw : IsPiece w) (hc : c ∈ w)
    (hpermitted : isPermitted c = true) :
    w = [c] := by
  rcases hw with ⟨d, rfl, -⟩ | hw
  · rw [List.mem_singleton.1 hc]
  · rw [isPermitted_eq_false (isAlpha_of_mem_names w hw c hc)] at hpermitted
    cases hpermitted

theorem isSequence_split {c : Char} (hc : isPermitted c = true) (us vs : List Char) :
    isSequence (us ++ c :: vs) = (isSequence us && isSequence vs) := by
  induction us using isSequence.induct with
  | case1 => rw [List.nil_append, isSequence_cons hc, isSequence_nil, Bool.true_and]
  | case2 us hne rest hdrop ih =>
      obtain ⟨w, hw, rfl⟩ := exists_piece_of_dropPiece? hdrop
      rw [List.append_assoc, isSequence_piece hw, isSequence_piece hw, ih]
  | case3 us hne hdrop =>
      rw [isSequence_eq_false hne hdrop, Bool.false_and, ← Bool.not_eq_true, isSequence_iff]
      rintro ⟨pieces, hpieces, hflatten⟩
      cases pieces with
      | nil => simp at hflatten
      | cons w pieces =>
          have hw := hpieces w (by simp)
          rw [List.flatten_cons] at hflatten
          rcases List.append_eq_append_iff.1 hflatten with ⟨more, rfl, -⟩ | ⟨more, rfl, hmore⟩
          · rw [dropPiece?_append hw] at hdrop
            cases hdrop
          · cases more with
            | nil =>
                rw [List.append_nil] at hw
                have hdrop' : dropPiece? (us ++ []) = some [] := dropPiece?_append hw []
                rw [List.append_nil, hdrop] at hdrop'
                cases hdrop'
            | cons d more =>
                obtain ⟨rfl, -⟩ := List.cons_eq_cons.1 hmore
                have hsingleton := eq_singleton_of_isPiece hw (by simp) hc
                simp [List.append_eq_singleton_iff, hne] at hsingleton

theorem isSequence_run {run : List Char} (hne : run ≠ []) (hrun : ∀ c ∈ run, isMantissa c = true)
    (us vs : List Char) :
    isSequence (us ++ (run ++ vs)) = (isSequence us && isSequence vs) := by
  obtain ⟨c, run, rfl⟩ := List.exists_cons_of_ne_nil hne
  rw [List.cons_append, isSequence_split (isPermitted_of_isMantissa (hrun c (by simp))),
    isSequence_append fun d hd => isPermitted_of_isMantissa (hrun d (by simp [hd]))]

theorem isSequence_asFraction {run : List Char} (hrun : ∀ c ∈ run, isMantissa c = true)
    (us vs : List Char) :
    isSequence (us ++ (asFraction run ++ vs)) = (isSequence us && isSequence vs) := by
  have hpermitted := isPermitted_of_mem_asFraction hrun
  rw [asFraction, List.cons_append] at hpermitted ⊢
  rw [List.cons_append, isSequence_split (hpermitted '(' (by simp)),
    isSequence_append fun c hc => hpermitted c (List.mem_cons_of_mem _ hc)]

/-- Whether a text is permitted is the same before and after its percentages are expanded, whatever
stands before it. -/
theorem isSequence_append_expandPercent (us cs : List Char) :
    isSequence (us ++ expandPercent cs) = isSequence (us ++ cs) := by
  induction cs using expansion_induction generalizing us with
  | run run hrun => rw [expandPercent_of_isMantissa hrun]
  | percentage run rest hne hrun ih =>
      have hrest : isSequence (expandPercent rest) = isSequence rest := ih []
      rw [expandPercent_percentage hne hrun, isSequence_asFraction hrun, isSequence_run hne hrun,
        isSequence_cons (by decide), hrest]
  | other run c rest hrun hc hpercent ih =>
      have hcons : ∀ vs, isSequence (vs ++ c :: expandPercent rest) =
          isSequence (vs ++ c :: rest) := by
        intro vs
        have hvs := ih (vs ++ [c])
        rwa [List.append_assoc, List.append_assoc] at hvs
      rw [expandPercent_run_cons hrun hc hpercent, ← List.append_assoc, hcons, List.append_assoc]

theorem prepare_eq (s : String) :
    prepare s =
      if Text.IsBlank s then .error .blank
      else if isSequence (replaceGlyphs (Text.trim s.toList)) = true then
        .ok (String.ofList (expandPercent (replaceGlyphs (Text.trim s.toList))))
      else .error
        (.grammar
          (.disallowed (String.ofList (expandPercent (replaceGlyphs (Text.trim s.toList)))))) := by
  by_cases hblank : Text.IsBlank s
  · rw [if_pos hblank, prepare]
    exact if_pos ((Text.trim_eq_nil_iff _).2 hblank)
  · have htrim : Text.trim s.toList ≠ [] := mt (Text.trim_eq_nil_iff _).1 hblank
    have hne : expandPercent (replaceGlyphs (Text.trim s.toList)) ≠ [] := by
      obtain ⟨c, cs, hcs⟩ := List.exists_cons_of_ne_nil htrim
      rw [ne_eq, expandPercent_eq_nil_iff, hcs, replaceGlyphs, List.flatMap_cons,
        List.append_eq_nil_iff]
      exact fun h => plain_ne_nil c h.1
    have hsequence := isSequence_append_expandPercent [] (replaceGlyphs (Text.trim s.toList))
    rw [List.nil_append, List.nil_append] at hsequence
    simp only [if_neg hblank, prepare, if_neg htrim, check, String.toList_ofList, hsequence]
    by_cases hpermitted : isSequence (replaceGlyphs (Text.trim s.toList)) = true
    · rw [if_pos ⟨hne, hpermitted⟩, if_pos hpermitted]
      rfl
    · rw [if_neg fun h => hpermitted h.2, if_neg hpermitted]
      rfl

end Input

/-- Whether the faults of a result are all failures of the evaluation. -/
def FailsOnly {α : Type} (r : Except Fault α) : Prop :=
  ∀ fault, r = .error fault → ∃ cause, fault = .failure cause

namespace FailsOnly

variable {α β : Type} {r : Except Fault α}

theorem iff_failsWith : FailsOnly r ↔ FailsWith (fun _ => True) r := by
  simp only [FailsOnly, FailsWith, and_true]

theorem ok (a : α) : FailsOnly (.ok a) :=
  iff_failsWith.2 (.ok a)

theorem failure (cause : Failure) : FailsOnly (.error (.failure cause) : Except Fault α) :=
  iff_failsWith.2 (.failure trivial)

theorem bind {f : α → Except Fault β} (h : FailsOnly r) (hf : ∀ a, r = .ok a → FailsOnly (f a)) :
    FailsOnly (r >>= f) :=
  iff_failsWith.2 ((iff_failsWith.1 h).bind fun a ha => iff_failsWith.1 (hf a ha))

theorem foldlM {step : α → β → Except Fault α} (h : ∀ a b, FailsOnly (step a b)) (bs : List β)
    (a : α) : FailsOnly (bs.foldlM step a) :=
  iff_failsWith.2 (.foldlM (fun a b => iff_failsWith.1 (h a b)) bs a)

end FailsOnly

namespace Lexer

/-- Whether a character is a blank or can begin a token. -/
def isLexical (c : Char) : Bool :=
  Text.isBlank c || (symbolToken? c).isSome || isWordy c

theorem isLexical_of_isPermitted {c : Char} (h : isPermitted c = true) : isLexical c = true := by
  simp only [isPermitted, Bool.or_eq_true, List.contains_iff_mem] at h
  rcases h with (hdigit | hsign) | hblank
  · simp [isLexical, isWordy, isMantissa, hdigit]
  · have hsigns : ∀ c ∈ ['.', '+', '-', '*', '/', '%', '(', ')', ','], isLexical c = true :=
      List.all_eq_true.1 (by decide)
    exact hsigns c hsign
  · simp [isLexical, hblank]

theorem isLexical_of_isSequence {cs : List Char} (h : isSequence cs = true) :
    ∀ c ∈ cs, isLexical c = true := by
  obtain ⟨pieces, hpieces, rfl⟩ := isSequence_iff.1 h
  intro c hc
  obtain ⟨w, hw, hcw⟩ := List.mem_flatten.1 hc
  rcases hpieces w hw with ⟨d, rfl, hd⟩ | hname
  · rw [List.mem_singleton.1 hcw]
    exact isLexical_of_isPermitted hd
  · simp [isLexical, isWordy, isAlpha_of_mem_names w hname c hcw]

theorem failsOnly_wordToken (w : String) : FailsOnly (wordToken w) := by
  unfold wordToken
  split
  · exact .ok _
  · split
    · exact .ok _
    · split
      · exact .ok _
      · exact .failure _

theorem failsOnly_numberToken (literal : List Char) : FailsOnly (numberToken literal) := by
  unfold numberToken
  split
  · exact .ok _
  · exact .failure _

theorem failsOnly_tokens {cs : List Char} (h : ∀ c ∈ cs, isLexical c = true) :
    FailsOnly (tokens cs) := by
  fun_induction tokens cs with
  | case1 => exact .ok _
  | case2 c cs hblank ih => exact ih fun d hd => h d (by simp [hd])
  | case3 c cs hblank t ht ih => exact (ih fun d hd => h d (by simp [hd])).bind fun _ _ => .ok _
  | case4 c cs hblank hsymbol halpha ih =>
      have hrest : ∀ d ∈ cs.dropWhile Char.isAlpha, isLexical d = true :=
        fun d hd => h d (by simp [(List.dropWhile_sublist _).mem hd])
      exact (failsOnly_wordToken _).bind fun t _ => (ih hrest).bind fun _ _ => .ok _
  | case5 c cs hblank hsymbol halpha hmantissa rest ih =>
      have hrest : ∀ d ∈ (splitExponent rest).2, isLexical d = true := by
        intro d hd
        have hmem : d ∈ rest := by
          rw [← splitExponent_append rest]
          exact List.mem_append_right _ hd
        exact h d (by simp [(List.dropWhile_sublist _).mem hmem])
      exact (failsOnly_numberToken _).bind fun t _ => (ih hrest).bind fun _ _ => .ok _
  | case6 c cs hblank hsymbol halpha hmantissa =>
      have hc := h c (by simp)
      simp [isLexical, isWordy, hblank, hsymbol, halpha, hmantissa] at hc

end Lexer

theorem failsOnly_toPostfix (ts : List Token) : FailsOnly (toPostfix ts) :=
  FailsOnly.iff_failsWith.2 (failsWith_toPostfix (fun _ _ => trivial) ts)

theorem Tree.failsOnly_value (t : Tree) : FailsOnly t.value := by
  unfold value
  split
  · exact .ok _
  · exact .failure _

theorem failsOnly_evaluateTokens (degrees : Bool) (ts : List Token) :
    FailsOnly (evaluateTokens degrees ts) := by
  refine (failsOnly_toPostfix ts).bind fun ordered hordered => ?_
  obtain ⟨t, rfl⟩ := exists_tree_of_toPostfix hordered
  rw [Tree.ofPostfix_postfixOrder]
  split
  · exact Tree.failsOnly_value _
  · exact .failure _

section

variable {s : String}

theorem evaluate_of_isBlank (degrees : Bool) (h : Text.IsBlank s) :
    evaluate degrees s = .error .blank := by
  rw [evaluate_eq_evaluateTokens, textTokens, prepare_eq, if_pos h]
  rfl

theorem evaluate_of_not_isPermittedText (degrees : Bool) (hblank : ¬ Text.IsBlank s)
    (h : ¬ IsPermittedText (replaceGlyphs (Text.trim s.toList))) :
    evaluate degrees s =
      .error
        (.grammar
          (.disallowed (String.ofList (expandPercent (replaceGlyphs (Text.trim s.toList)))))) := by
  rw [evaluate_eq_evaluateTokens, textTokens, prepare_eq, if_neg hblank,
    if_neg (mt isSequence_iff.1 h)]
  rfl

theorem failsOnly_tokenize {p : String} (h : prepare s = .ok p) : FailsOnly (tokenize p) :=
  failsOnly_tokens (isLexical_of_isSequence (prepare_eq_ok_iff.1 h).2.2)

theorem failsOnly_evaluate (degrees : Bool) (hblank : ¬ Text.IsBlank s)
    (h : IsPermittedText (replaceGlyphs (Text.trim s.toList))) :
    FailsOnly (evaluate degrees s) := by
  have hprepare := prepare_eq s
  rw [if_neg hblank, if_pos (isSequence_iff.2 h)] at hprepare
  rw [evaluate_eq_evaluateTokens, textTokens, hprepare]
  exact (failsOnly_tokenize hprepare).bind fun ts _ => failsOnly_evaluateTokens degrees ts

theorem evaluate_eq_blank_iff {degrees : Bool} :
    evaluate degrees s = .error .blank ↔ Text.IsBlank s := by
  refine ⟨fun h => ?_, evaluate_of_isBlank degrees⟩
  by_contra hblank
  by_cases hpermitted : IsPermittedText (replaceGlyphs (Text.trim s.toList))
  · obtain ⟨cause, hcause⟩ := failsOnly_evaluate degrees hblank hpermitted _ h
    cases hcause
  · rw [evaluate_of_not_isPermittedText degrees hblank hpermitted] at h
    cases h

end

/-- The three kinds of faults, and what the passes after the preparation can still refuse. -/
theorem faults_are_classified :
    (∀ (degrees : Bool) (s : String),
      (evaluate degrees s = .error .blank ↔ Text.IsBlank s) ∧
      ((∃ fault, evaluate degrees s = .error (.grammar fault)) ↔
        ¬ Text.IsBlank s ∧ ¬ IsPermittedText (replaceGlyphs (Text.trim s.toList))) ∧
      (((∃ value, evaluate degrees s = .ok value ∧ Number.IsFinite value) ∨
          ∃ cause, evaluate degrees s = .error (.failure cause)) ↔
        ¬ Text.IsBlank s ∧ IsPermittedText (replaceGlyphs (Text.trim s.toList)))) ∧
    (∀ s p, prepare s = .ok p → ∀ fault, tokenize p ≠ .error (.grammar fault)) ∧
    ∀ ts ordered, toPostfix ts = .ok ordered → ∃ t : Tree, ordered = t.postfixOrder ∧
      Tree.ofPostfix ordered =
        if t.height ≤ maxHeight then .ok t else .error (.failure .nestedTooDeeply) := by
  refine ⟨fun degrees s => ?_, fun s p hp fault hfault => ?_, fun ts ordered hordered => ?_⟩
  · by_cases hblank : Text.IsBlank s
    · simp [evaluate_of_isBlank degrees hblank, hblank]
    · by_cases hpermitted : IsPermittedText (replaceGlyphs (Text.trim s.toList))
      · have hfails := failsOnly_evaluate degrees hblank hpermitted
        cases hevaluate : evaluate degrees s with
        | ok value =>
            have hfinite := isFinite_of_evaluate hevaluate
            simp [hblank, hpermitted, hfinite]
        | error fault =>
            obtain ⟨cause, rfl⟩ := hfails fault hevaluate
            simp [hblank, hpermitted]
      · simp [evaluate_of_not_isPermittedText degrees hblank hpermitted, hblank, hpermitted]
  · obtain ⟨cause, hcause⟩ := failsOnly_tokenize hp _ hfault
    cases hcause
  · obtain ⟨t, rfl⟩ := exists_tree_of_toPostfix hordered
    exact ⟨t, rfl, Tree.ofPostfix_postfixOrder t⟩

theorem faults_are_classified_sinh :
    ∃ ts ordered : List Token, evaluate false "\u3000" = .error .blank ∧
      (∃ fault, evaluate true "sinh(1)" = .error (.grammar fault)) ∧
      prepare "50%" = .ok "(50/100)" ∧
      (∀ fault, tokenize "(50/100)" ≠ .error (.grammar fault)) ∧
      ts = [.pi, .operator .sub, .euler] ∧
      toPostfix ts = .ok ordered ∧ ∃ t : Tree, ordered = t.postfixOrder ∧
        Tree.ofPostfix ordered =
          if t.height ≤ maxHeight then .ok t else .error (.failure .nestedTooDeeply) := by
  obtain ⟨hkinds, htokenize, hpostfix⟩ := faults_are_classified
  have hblank : Text.IsBlank "\u3000" := by
    intro c hc
    obtain rfl : c = '\u3000' := by simpa using hc
    decide
  have hnotblank : ¬ Text.IsBlank "sinh(1)" := fun h => absurd (h 's' (by simp)) (by decide)
  have hname : ¬ IsPermittedText (replaceGlyphs (Text.trim "sinh(1)".toList)) := by
    rw [← isSequence_iff]
    decide +kernel
  have hprepare : prepare "50%" = .ok "(50/100)" := by decide +kernel
  have hordered : toPostfix [.pi, .operator .sub, .euler] = .ok [.pi, .euler, .operator .sub] := by
    decide +kernel
  exact ⟨_, _, (hkinds false _).1.2 hblank, (hkinds true _).2.1.2 ⟨hnotblank, hname⟩, hprepare,
    htokenize _ _ hprepare, rfl, hordered, hpostfix _ _ hordered⟩

end TalkingCalculator
