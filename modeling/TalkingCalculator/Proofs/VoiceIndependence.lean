import TalkingCalculator.Proofs.SessionSteps

namespace TalkingCalculator

namespace Session

/-- Whether two sessions differ at most in language and voice, and in announcements only if the
languages differ. -/
structure Agrees (s t : Session) : Prop where
  buffer : s.buffer = t.buffer
  memory : s.memory = t.memory
  lastValue : s.lastValue = t.lastValue
  trace : s.trace = t.trace
  degrees : s.degrees = t.degrees
  lastAnnouncement : s.language = t.language → s.lastAnnouncement = t.lastAnnouncement

/-- The results on the screens of two sessions agree when they are the same or the words for an
error. -/
def ResultsAgree (s t : Session) (result result' : String) : Prop :=
  result = result' ∨ result = s.lexicon.error ∧ result' = t.lexicon.error

theorem lastAnnouncement_step_voiceActive (s : Session) (voiceActive : Bool) (command : Command) :
    (step { s with voiceActive := voiceActive } command).1.lastAnnouncement =
      (s.step command).1.lastAnnouncement := by
  cases command with
  | press key =>
      simp only [step, press]
      split <;> rfl
  | act action =>
      cases action with
      | erase =>
          simp only [step, act, erase]
          split <;> rfl
      | equals =>
          simp only [step, act, equals]
          split <;> rfl
      | addToMemory | subtractFromMemory =>
          simp only [step, act, accumulate]
          split
          · rfl
          · split <;> rfl
          · rfl
      | _ => rfl
  | _ => rfl

namespace Agrees

variable {s t : Session}

theorem outcome (h : s.Agrees t) : s.outcome = t.outcome := by
  rw [Session.outcome, Session.outcome, h.degrees, h.buffer]

theorem expression (h : s.Agrees t) : s.expression = t.expression := by
  rw [Session.expression, Session.expression, h.buffer]

theorem evaluation? (h : s.Agrees t) (command : Command) :
    s.evaluation? command = t.evaluation? command := by
  unfold Session.evaluation?
  rw [h.degrees, h.buffer]

theorem combined (h : s.Agrees t) (combine : Float → Float → Float) :
    s.combined combine = t.combined combine := by
  rw [Session.combined, Session.combined, operand?, operand?, h.degrees, h.buffer, h.lastValue,
    h.memory]

theorem memoryAfter (h : s.Agrees t) (command : Command) :
    s.memoryAfter command = t.memoryAfter command := by
  unfold Session.memoryAfter
  rw [h.combined, h.combined, h.memory]

theorem bufferAfter (h : s.Agrees t) (command : Command) :
    s.bufferAfter command = t.bufferAfter command := by
  unfold Session.bufferAfter
  rw [h.outcome, h.buffer, h.memory]

theorem degreesAfter (h : s.Agrees t) (command : Command) :
    s.degreesAfter command = t.degreesAfter command := by
  unfold Session.degreesAfter
  rw [h.degrees]

theorem lastAnnouncement_step (h : s.Agrees t) (hlanguage : s.language = t.language)
    (command : Command) :
    (s.step command).1.lastAnnouncement = (t.step command).1.lastAnnouncement := by
  have hs : s = { t with voiceActive := s.voiceActive } := by
    rw [← h.buffer, ← h.memory, ← h.lastValue, ← h.trace, ← h.degrees,
      ← h.lastAnnouncement hlanguage, ← hlanguage]
  rw [hs]
  exact t.lastAnnouncement_step_voiceActive _ command

theorem step (h : s.Agrees t) (command : Command) :
    (s.step command).1.Agrees (t.step command).1 := by
  have hannouncement := fun hlanguage => h.lastAnnouncement_step hlanguage command
  obtain ⟨text, hs⟩ := s.exists_step command
  obtain ⟨text', ht⟩ := t.exists_step command
  rw [hs, ht] at hannouncement ⊢
  constructor
  · exact h.bufferAfter command
  · exact h.memoryAfter command
  · simp only [h.evaluation? command, h.lastValue]
  · simp only [h.evaluation? command, h.trace]
  · exact h.degreesAfter command
  · exact hannouncement

theorem resultAfter (h : s.Agrees t) {result result' : String}
    (hresult : s.ResultsAgree t result result') (command : Command) :
    s.ResultsAgree t (s.resultAfter result command) (t.resultAfter result' command) := by
  cases command with
  | act action =>
      cases action with
      | clear => exact .inl rfl
      | equals =>
          rw [Session.resultAfter, Session.resultAfter, h.outcome]
          split
          · exact .inl rfl
          · exact .inr ⟨rfl, rfl⟩
          · exact hresult
      | addToMemory | subtractFromMemory =>
          rw [Session.resultAfter, Session.resultAfter, h.outcome]
          split
          · exact .inr ⟨rfl, rfl⟩
          · exact hresult
      | _ => exact hresult
  | _ => exact hresult

end Agrees

/-- Two sessions that agree, with their screens. -/
structure ShowAlike (s t : Session) (screen screen' : Screen) : Prop where
  agrees : s.Agrees t
  expression : screen.expression = s.expression
  expression' : screen'.expression = t.expression
  result : s.ResultsAgree t screen.result screen'.result

variable {s t : Session} {screen screen' : Screen}

theorem ShowAlike.step (h : s.ShowAlike t screen screen') (command : Command) :
    (s.step command).1.ShowAlike (t.step command).1 (screen.after (s.step command).2)
      (screen'.after (t.step command).2) := by
  rw [after_step h.expression, after_step h.expression']
  refine ⟨h.agrees.step command, rfl, rfl, ?_⟩
  have hresult := h.agrees.resultAfter h.result command
  rwa [ResultsAgree, lexicon, lexicon, language_step, language_step]

theorem ShowAlike.run (h : s.ShowAlike t screen screen') (commands : List Command) :
    (s.run commands).1.ShowAlike (t.run commands).1 (screen.after (s.run commands).2)
      (screen'.after (t.run commands).2) := by
  induction commands generalizing s t screen screen' with
  | nil => exact h
  | cons command commands ih =>
      rw [run_cons, run_cons, Screen.after_append, Screen.after_append]
      exact ih (h.step command)

theorem showAlike_start (screen : Screen) (preferences : Preferences) (language : Language)
    (voiceActive : Bool) :
    (start preferences).ShowAlike
      (start { preferences with language := language, voiceActive := voiceActive })
      (screen.after startEffects) (screen.after startEffects) :=
  ⟨⟨rfl, rfl, rfl, rfl, rfl, fun _ => rfl⟩, rfl, rfl, .inl rfl⟩

/-- Whether a step makes at most one announcement, and one only with an active voice, which is then
the last announcement. -/
def SpeaksOnce (r : Session × List Effect) : Prop :=
  announcements r.2 = [] ∨
    r.1.voiceActive = true ∧ announcements r.2 = [(r.1.lastAnnouncement, r.1.language)]

theorem announcements_spoken (s : Session) :
    announcements s.spoken = [] ∨
      s.voiceActive = true ∧ announcements s.spoken = [(s.lastAnnouncement, s.language)] := by
  rw [spoken]
  split
  · next h => exact .inr ⟨h, rfl⟩
  · exact .inl rfl

theorem speaksOnce_announce (s : Session) (text : String) : SpeaksOnce (s.announce text) :=
  announcements_spoken _

theorem speaksOnce_equals (s : Session) : SpeaksOnce s.equals := by
  have hboth : ∀ (said : Session) (buffer expression result : String), SpeaksOnce
      ({ said with buffer := buffer },
        .showResult result :: said.spoken ++ [.showExpression expression]) := by
    intro said buffer expression result
    have heffects :
        announcements (.showResult result :: said.spoken ++ [.showExpression expression]) =
        announcements said.spoken ++ [] := List.filterMap_append
    rw [SpeaksOnce, heffects, List.append_nil]
    exact announcements_spoken said
  rw [equals]
  split
  · exact hboth _ _ _ _
  · exact .inl rfl
  · exact hboth _ _ _ _

theorem speaksOnce_step (s : Session) (command : Command) : SpeaksOnce (s.step command) := by
  cases command with
  | press key =>
      rw [step, press]
      split
      · exact .inl rfl
      · exact speaksOnce_announce _ _
  | enter text => exact .inl rfl
  | act action =>
      cases action with
      | clear => exact speaksOnce_announce _ _
      | erase =>
          simp only [step, act, erase]
          split
          · exact .inl rfl
          · exact speaksOnce_announce _ _
      | equals => exact s.speaksOnce_equals
      | clearMemory => exact speaksOnce_announce _ _
      | recallMemory => exact speaksOnce_announce _ _
      | addToMemory | subtractFromMemory =>
          simp only [step, act, accumulate]
          split
          · exact speaksOnce_announce _ _
          · split
            · exact speaksOnce_announce _ _
            · exact .inl rfl
          · exact speaksOnce_announce _ _
  | enableVoice => exact speaksOnce_announce _ _
  | muteVoice => exact .inl rfl
  | toggleDegrees => exact speaksOnce_announce _ _

end Session

/-- Two sessions that begin with the same unit of angles and are told the same calculate and show
the same, except that each shows an error in its own language. What they say is the same in one
language, and is said once by each session whose voice is active. -/
theorem calculation_ignores_voice (screen : Screen) (preferences : Preferences)
    (language : Language) (voiceActive : Bool) (commands : List Command) :
    let run := (Session.start preferences).run commands
    let run' :=
      (Session.start { preferences with language := language, voiceActive := voiceActive }).run
        commands
    let shown := screen.after (Session.startEffects ++ run.2)
    let shown' := screen.after (Session.startEffects ++ run'.2)
    run.1.buffer = run'.1.buffer ∧ shown.expression = shown'.expression ∧
    run.1.memory = run'.1.memory ∧
      run.1.degrees = run'.1.degrees ∧ run.1.trace = run'.1.trace ∧ run.1.outcome = run'.1.outcome ∧
      (shown.result = shown'.result ∨
        shown.result = preferences.language.lexicon.error ∧
          shown'.result = language.lexicon.error) ∧
      (preferences.language = language → run.1.lastAnnouncement = run'.1.lastAnnouncement) ∧
      ∀ command,
        let next := run.1.step command
        announcements next.2 = [] ∨
          next.1.voiceActive = true ∧
            announcements next.2 = [(next.1.lastAnnouncement, next.1.language)] := by
  intro run run' shown shown'
  have halike := (Session.showAlike_start screen preferences language voiceActive).run commands
  rw [← Screen.after_append, ← Screen.after_append] at halike
  obtain ⟨hagrees, hexpression, hexpression', hresult⟩ := halike
  have hlast := hagrees.lastAnnouncement
  rw [Session.ResultsAgree, Session.lexicon, Session.lexicon, Session.language_run,
    Session.language_run] at hresult
  rw [Session.language_run, Session.language_run] at hlast
  have hshown := hexpression.trans (hagrees.expression.trans hexpression'.symm)
  exact ⟨hagrees.buffer, hshown, hagrees.memory, hagrees.degrees, hagrees.trace, hagrees.outcome,
    hresult, hlast, run.1.speaksOnce_step⟩

theorem calculation_ignores_voice_error :
    ∃ s t : Session,
      s = ((Session.start ⟨.english, false, true⟩).run [.enter "1/0", .act .equals]).1 ∧
      t = ((Session.start ⟨.english, false, false⟩).run [.enter "1/0", .act .equals]).1 ∧
      s.lastAnnouncement = "calculation error" ∧ t.lastAnnouncement = "calculation error" := by
  obtain ⟨-, -, -, -, -, -, -, hlast, -⟩ :=
    calculation_ignores_voice Screen.initial ⟨.english, false, true⟩ .english false
    [.enter "1/0", .act .equals]
  have hsaid :
      ((Session.start ⟨.english, false, true⟩).run [.enter "1/0",
        .act .equals]).1.lastAnnouncement =
      "calculation error" := by decide +kernel
  exact ⟨_, _, rfl, rfl, hsaid, (hlast rfl).symm.trans hsaid⟩

end TalkingCalculator
