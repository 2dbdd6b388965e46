import TalkingCalculator.CommandLine.Calculation
import TalkingCalculator.Proofs.AudibleReadings

namespace TalkingCalculator

namespace Calculation

variable {programs : List String} {waitable : Bool} {s : Settings} {expression : String}

/-- The session in which an expression is calculated. -/
def entered (s : Settings) (expression : String) : Session :=
  ((Session.start s.preferences).enter expression).1

theorem outcome_entered (s : Settings) (expression : String) :
    (entered s expression).outcome =
      match evaluate s.degrees expression with
      | .error .blank => none
      | result => some result :=
  rfl

theorem code_run (programs : List String) (waitable : Bool) (s : Settings) (expression : String) :
    (run programs waitable s expression).code =
      if (evaluate s.degrees expression).toOption.isSome then 0 else 1 := by
  have hsucceeded : (run programs waitable s expression).succeeded =
      (entered s expression).outcome.any fun outcome => outcome.toOption.isSome := rfl
  rw [code, hsucceeded, outcome_entered]
  cases evaluate s.degrees expression with
  | ok value => rfl
  | error fault => cases fault <;> rfl

theorem output_eq (programs : List String) (waitable : Bool) (s : Settings) (expression : String) :
    (run programs waitable s expression).output =
      line (Screen.initial.after (entered s expression).equals.2).result ++
        if (entered s expression).equals.1.lastAnnouncement = "" then ""
        else line (entered s expression).equals.1.lastAnnouncement :=
  rfl

/-- The result on the screen and the announcement after the evaluation, as the evaluation of the
expression decides them. -/
theorem shown_and_announced (s : Settings) (expression : String) :
    ((Screen.initial.after (entered s expression).equals.2).result,
      (entered s expression).equals.1.lastAnnouncement) =
      match evaluate s.degrees expression with
      | .ok value => (Number.text value, s.language.lexicon.readNumber value)
      | .error .blank => ("0", "")
      | .error _ => (s.language.lexicon.error, s.language.lexicon.notice .calculationError) := by
  have hcalculate : calculate (entered s expression).degrees (entered s expression).buffer =
      calculate s.degrees expression := rfl
  rw [evaluate, Session.equals, hcalculate]
  cases calculate s.degrees expression with
  | ok result =>
      exact congrArg (·.result, _) (Session.after_result_spoken_shown _ _ _ Screen.initial)
  | error fault =>
      cases fault with
      | blank => rfl
      | grammar | failure =>
          exact congrArg (·.result, _) (Session.after_result_spoken_shown _ _ _ Screen.initial)

theorem output_run (programs : List String) (waitable : Bool) (s : Settings) (expression : String) :
    (run programs waitable s expression).output =
      match evaluate s.degrees expression with
      | .ok value => line (Number.text value) ++ line (s.language.lexicon.readNumber value)
      | .error .blank => line "0"
      | .error _ =>
          line s.language.lexicon.error ++ line (s.language.lexicon.notice .calculationError) := by
  have hshown := shown_and_announced s expression
  rw [output_eq]
  cases hvalue : evaluate s.degrees expression with
  | ok value =>
      rw [hvalue] at hshown
      obtain ⟨hresult, hannouncement⟩ := Prod.mk.inj hshown
      have hne : s.language.lexicon.readNumber value ≠ "" := by
        intro hempty
        exact s.language.not_isBlank_readNumber value (by rw [hempty]; decide)
      rw [hresult, hannouncement, if_neg hne]
  | error fault =>
      rw [hvalue] at hshown
      cases fault with
      | blank =>
          obtain ⟨hresult, hannouncement⟩ := Prod.mk.inj hshown
          rw [hresult, hannouncement]
          rfl
      | grammar | failure =>
          obtain ⟨hresult, hannouncement⟩ := Prod.mk.inj hshown
          rw [hresult, hannouncement, if_neg (by cases s.language <;> decide)]

end Calculation

open Calculation in
/-- A calculation prints the value and its words and succeeds, or prints a zero for a blank
expression or the texts of an error and fails. Which programs there are, and whether and how the
voice speaks, changes neither what is printed nor the exit code. This assumes that every program
that is started ends by itself: a calculation waits for the one that speaks, and has no exit code
while that one runs on. -/
theorem calculation_prints (programs : List String) (waitable : Bool) (s : Settings)
    (expression : String) :
    let c := Calculation.run programs waitable s expression
    (match evaluate s.degrees expression with
      | .ok value =>
        c.code = 0 ∧ c.output =
          Number.text value ++ "\n" ++ s.language.lexicon.readNumber value ++ "\n"
      | .error .blank => c.code = 1 ∧ c.output = "0\n"
      | .error _ =>
        c.code = 1 ∧ c.output =
          s.language.lexicon.error ++ "\n" ++ s.language.lexicon.notice .calculationError ++ "\n") ∧
    ∀ programs' waitable' voiceActive rate speechCommand,
      let other := Calculation.run programs' waitable'
        { s with voiceActive := voiceActive, rate := rate, speechCommand := speechCommand }
          expression
      other.code = c.code ∧ other.output = c.output := by
  intro c
  have hcode : c.code = _ := code_run programs waitable s expression
  have houtput : c.output = _ := output_run programs waitable s expression
  refine ⟨?_, fun programs' waitable' voiceActive rate speechCommand => ?_⟩
  · rw [hcode, houtput]
    cases evaluate s.degrees expression with
    | ok value => exact ⟨rfl, by simp only [line, String.append_assoc]⟩
    | error fault =>
        cases fault with
        | blank => exact ⟨rfl, rfl⟩
        | grammar | failure => exact ⟨rfl, by simp only [line, String.append_assoc]⟩
  · exact ⟨(code_run _ _ _ _).trans hcode.symm, (output_run _ _ _ _).trans houtput.symm⟩

end TalkingCalculator
