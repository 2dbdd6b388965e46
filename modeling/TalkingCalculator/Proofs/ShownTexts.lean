import TalkingCalculator.Proofs.FaithfulTraces
import TalkingCalculator.Proofs.SessionSteps

namespace TalkingCalculator

namespace Session

variable {s : Session} {screen : Screen} {last : Option (Float × Trace)}

/-- The last value and trace that a run obtains. -/
def lastEvaluation (s : Session) : List Command → Option (Float × Trace)
  | [] => none
  | command :: commands => ((s.step command).1.lastEvaluation commands).or (s.evaluation? command)

theorem evaluation?_equals_eq_none_iff :
    s.evaluation? (.act .equals) = none ↔ ∀ value, s.outcome ≠ some (.ok value) := by
  rw [evaluation?, outcome_eq]
  cases calculate s.degrees s.buffer with
  | ok result => simp [Except.toOption]
  | error fault => cases fault <;> simp [Except.toOption]

theorem lastEvaluation_eq_none_iff {commands : List Command} :
    s.lastEvaluation commands = none ↔ ∀ before later, commands = before ++ .act .equals :: later →
      ∀ value, (s.run before).1.outcome ≠ some (.ok value) := by
  induction commands generalizing s with
  | nil => simp [lastEvaluation]
  | cons command commands ih =>
      rw [lastEvaluation, Option.or_eq_none_iff, ih]
      constructor
      · rintro ⟨hlater, hfirst⟩ before later hsplit
        cases before with
        | nil =>
            obtain ⟨rfl, -⟩ := List.cons_eq_cons.1 hsplit
            exact evaluation?_equals_eq_none_iff.1 hfirst
        | cons first before =>
            obtain ⟨rfl, rfl⟩ := List.cons_eq_cons.1 hsplit
            exact hlater before later rfl
      · intro h
        refine ⟨fun before later hsplit => h (command :: before) later (by rw [hsplit]; rfl), ?_⟩
        by_cases hcommand : command = .act .equals
        · subst hcommand
          exact evaluation?_equals_eq_none_iff.2 (h [] commands rfl)
        · unfold evaluation?
          split
          · exact absurd rfl hcommand
          · rfl

theorem evaluation_trace_ne_empty {command : Command} {result : Float × Trace}
    (h : s.evaluation? command = some result) :
    result.2 ≠ Trace.empty := by
  obtain ⟨ts, ordered, t, hprepare, -⟩ := calculate_eq_ok_iff.1 (calculate_of_evaluation? h)
  obtain ⟨-, hne, -⟩ := prepare_eq_ok_iff.1 hprepare
  intro hempty
  rw [hempty] at hne
  exact hne rfl

/-- What the screen and the trace are when `last` was obtained last. -/
structure Published (s : Session) (screen : Screen) (last : Option (Float × Trace)) : Prop where
  expression : screen.expression = s.expression
  result : screen.result = "0" ∨ screen.result = s.lexicon.error ∨
    ∃ e ∈ last, screen.result = Number.text e.1
  trace : s.trace = last.elim Trace.empty Prod.snd
  trace_ne_empty : ∀ e ∈ last, e.2 ≠ Trace.empty

theorem resultAfter_cases (s : Session) (result : String) (command : Command) :
    (∃ e, s.evaluation? command = some e ∧ s.resultAfter result command = Number.text e.1) ∨
      s.evaluation? command = none ∧
        (s.resultAfter result command = result ∨ s.resultAfter result command = "0" ∨
          s.resultAfter result command = s.lexicon.error) := by
  cases command with
  | act action =>
      cases action with
      | equals =>
          rw [evaluation?, resultAfter, outcome_eq]
          cases calculate s.degrees s.buffer with
          | ok e => exact .inl ⟨e, rfl, rfl⟩
          | error fault =>
              cases fault with
              | blank => exact .inr ⟨rfl, .inl rfl⟩
              | grammar | failure => exact .inr ⟨rfl, .inr (.inr rfl)⟩
      | addToMemory | subtractFromMemory =>
          refine .inr ⟨rfl, ?_⟩
          rw [resultAfter]
          split
          · exact .inr (.inr rfl)
          · exact .inl rfl
      | clear => exact .inr ⟨rfl, .inr (.inl rfl)⟩
      | _ => exact .inr ⟨rfl, .inl rfl⟩
  | _ => exact .inr ⟨rfl, .inl rfl⟩

theorem Published.step (h : s.Published screen last) (command : Command) :
    (s.step command).1.Published (screen.after (s.step command).2)
      ((s.evaluation? command).or last) := by
  rw [after_step h.expression]
  obtain ⟨text, hstep⟩ := s.exists_step command
  rw [hstep]
  rcases s.resultAfter_cases screen.result command with ⟨e, he, hresult⟩ | ⟨hnone, hresult⟩
  · rw [he, Option.some_or]
    refine ⟨rfl, .inr (.inr ⟨e, rfl, hresult⟩), rfl, fun e' he' => ?_⟩
    obtain rfl := Option.some.inj he'
    exact evaluation_trace_ne_empty he
  · rw [hnone, Option.none_or]
    refine ⟨rfl, ?_, h.trace, h.trace_ne_empty⟩
    rcases hresult with hresult | hresult | hresult
    · rw [hresult]
      exact h.result
    · exact .inl hresult
    · exact .inr (.inl hresult)

theorem Published.run (h : s.Published screen last) (commands : List Command) :
    (s.run commands).1.Published (screen.after (s.run commands).2)
      ((s.lastEvaluation commands).or last) := by
  induction commands generalizing s screen last with
  | nil => exact h
  | cons command commands ih =>
      rw [run_cons, Screen.after_append, lastEvaluation, Option.or_assoc]
      exact ih (h.step command)

theorem published_start (screen : Screen) (preferences : Preferences) :
    (start preferences).Published (screen.after startEffects) none :=
  ⟨rfl, .inl rfl, rfl, by simp⟩

end Session

/-- The screen shows the buffer, and a result that is a zero, the word for an error, or the text of
the last value. The trace is that of the last value. -/
theorem screen_follows_session (screen : Screen) (preferences : Preferences)
    (commands : List Command) :
    let run := (Session.start preferences).run commands
    let shown := screen.after (Session.startEffects ++ run.2)
    let last := (Session.start preferences).lastEvaluation commands
    shown.expression = (if run.1.buffer = "" then "0" else run.1.buffer) ∧
      (shown.result = "0" ∨ shown.result = preferences.language.lexicon.error ∨
        ∃ value trace, last = some (value, trace) ∧ shown.result = Number.text value) ∧
      run.1.trace = last.elim Trace.empty Prod.snd ∧
      (run.1.trace = Trace.empty ↔ ∀ before later, commands = before ++ .act .equals :: later →
        ∀ value, ((Session.start preferences).run before).1.outcome ≠ some (.ok value)) := by
  intro run shown last
  have hpublished := (Session.published_start screen preferences).run commands
  rw [← Screen.after_append, Option.or_none] at hpublished
  obtain ⟨hexpression, hresult, htrace, hne⟩ := hpublished
  refine ⟨hexpression, ?_, htrace, ?_⟩
  · rw [Session.lexicon, Session.language_run] at hresult
    rcases hresult with hzero | herror | ⟨⟨value, trace⟩, hlast, htext⟩
    · exact .inl hzero
    · exact .inr (.inl herror)
    · exact .inr (.inr ⟨value, trace, hlast, htext⟩)
  · rw [← Session.lastEvaluation_eq_none_iff, htrace]
    cases hlast : (Session.start preferences).lastEvaluation commands with
    | none => simp
    | some e => simpa using hne e hlast

end TalkingCalculator
