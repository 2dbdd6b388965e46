import TalkingCalculator.Expression.Input
import TalkingCalculator.Proofs.Numeral

namespace TalkingCalculator.Input

open Lexer

theorem expandPercentFrom_run {run : List Char} (hrun : ∀ c ∈ run, isMantissa c = true)
    (before cs : List Char) :
    expandPercentFrom before (run ++ cs) = expandPercentFrom (run.reverse ++ before) cs := by
  induction run generalizing before with
  | nil => rfl
  | cons c run ih =>
      have hc : isMantissa c = true := hrun c (by simp)
      rw [List.cons_append, expandPercentFrom, if_pos hc, ih fun d hd => hrun d (by simp [hd])]
      simp

theorem expandPercentFrom_of_not_mantissa {before cs : List Char}
    (hhead : ∀ c ∈ cs.head?, isMantissa c = false ∧ (c = '%' → before = [])) :
    expandPercentFrom before cs = before.reverse ++ expandPercent cs := by
  cases cs with
  | nil => simp [expandPercent, expandPercentFrom]
  | cons c cs =>
      obtain ⟨hc, hpercent⟩ := hhead c (by simp)
      have hsplit : ¬ (c = '%' ∧ before ≠ []) := fun h => h.2 (hpercent h.1)
      simp [expandPercent, expandPercentFrom, hc, hsplit]

theorem expandPercent_run {run cs : List Char} (hrun : ∀ c ∈ run, isMantissa c = true)
    (hhead : ∀ c ∈ cs.head?, isMantissa c = false ∧ (c = '%' → run = [])) :
    expandPercent (run ++ cs) = run ++ expandPercent cs := by
  rw [expandPercent, expandPercentFrom_run hrun, List.append_nil,
    expandPercentFrom_of_not_mantissa fun c hc =>
      ⟨(hhead c hc).1, fun h => by simp [(hhead c hc).2 h]⟩,
    List.reverse_reverse]

theorem expandPercent_percentage {run : List Char} (hne : run ≠ [])
    (hrun : ∀ c ∈ run, isMantissa c = true) (cs : List Char) :
    expandPercent (run ++ '%' :: cs) = asFraction run ++ expandPercent cs := by
  rw [expandPercent, expandPercentFrom_run hrun, List.append_nil]
  have hpercent : isMantissa '%' = false := by decide
  simp [expandPercentFrom, hpercent, hne, expandPercent]

theorem expandPercent_cons {c : Char} (hc : isMantissa c = false) (cs : List Char) :
    expandPercent (c :: cs) = c :: expandPercent cs := by
  simp [expandPercent, expandPercentFrom, hc]

theorem expandPercent_append {w : List Char} (hw : ∀ c ∈ w, isMantissa c = false) (cs : List Char) :
    expandPercent (w ++ cs) = w ++ expandPercent cs := by
  induction w with
  | nil => rfl
  | cons c w ih =>
      rw [List.cons_append, expandPercent_cons (hw c (by simp)), ih fun d hd => hw d (by simp [hd])]
      rfl

/-- A text begins with a run of digits and points, which may be empty, and which is a percentage or
stays as it is. -/
theorem exists_percentage_or_run (cs : List Char) :
    (∃ run rest, cs = run ++ '%' :: rest ∧ run ≠ [] ∧ ∀ c ∈ run, isMantissa c = true) ∨
      ∃ run rest, cs = run ++ rest ∧ (∀ c ∈ run, isMantissa c = true) ∧
        ∀ c ∈ rest.head?, isMantissa c = false ∧ (c = '%' → run = []) := by
  obtain ⟨run, rest, rfl, hrun, hrest⟩ := exists_run isMantissa cs
  by_cases hpercent : run ≠ [] ∧ rest.head? = some '%'
  · obtain ⟨rest, rfl⟩ := List.head?_eq_some_iff.1 hpercent.2
    exact .inl ⟨run, rest, rfl, hpercent.1, hrun⟩
  · refine .inr ⟨run, rest, rfl, hrun, fun c hc => ⟨hrest c hc, ?_⟩⟩
    rintro rfl
    exact Classical.byContradiction fun hne => hpercent ⟨hne, hc⟩

theorem head?_expandPercent (cs : List Char) :
    ∀ c ∈ (expandPercent cs).head?, c = '(' ∨ c ∈ cs.head? := by
  intro c hc
  rcases exists_percentage_or_run cs with
    ⟨run, rest, rfl, hne, hrun⟩ | ⟨run, rest, rfl, hrun, hrest⟩
  · rw [expandPercent_percentage hne hrun] at hc
    exact .inl (by simpa [asFraction, eq_comm] using hc)
  · right
    cases run with
    | cons d run =>
        rw [expandPercent_run hrun hrest] at hc
        simpa using hc
    | nil =>
        cases rest with
        | nil => simp [expandPercent, expandPercentFrom] at hc
        | cons d rest =>
            rw [List.nil_append, expandPercent_cons (hrest d (by simp)).1] at hc
            simpa using hc

end TalkingCalculator.Input
