import TalkingCalculator.Proofs.FaultKinds
import TalkingCalculator.Proofs.ShownTexts

namespace TalkingCalculator

namespace Session

variable {s : Session} {fault : Fault}

theorem outcome_of_fault (hblank : ¬ Text.IsBlank s.buffer)
    (h : evaluate s.degrees s.buffer = .error fault) :
    s.outcome = some (.error fault) := by
  rw [outcome, h]
  cases fault with
  | blank => exact absurd (evaluate_eq_blank_iff.1 h) hblank
  | grammar | failure => rfl

theorem signalError_eq (s : Session) :
    s.signalError =
      ({ s with lastAnnouncement := s.lexicon.notice .calculationError },
        .showResult s.lexicon.error ::
          if s.voiceActive then [.announce (s.lexicon.notice .calculationError) s.language]
            else []) :=
  rfl

theorem equals_of_fault (h : s.outcome = some (.error fault)) :
    s.equals = ({ s.signalError.1 with buffer := "" },
      s.signalError.2 ++ [.showExpression "0"]) := by
  rw [outcome_eq] at h
  rw [equals]
  cases hcalculate : calculate s.degrees s.buffer with
  | ok result =>
      rw [hcalculate] at h
      cases h
  | error other =>
      cases other with
      | blank =>
          rw [hcalculate] at h
          cases h
      | grammar | failure => rfl

theorem accumulate_of_fault (h : s.outcome = some (.error fault)) (combine : Float → Float → Float)
    (notice : Notice) :
    s.accumulate combine notice = s.signalError := by
  rw [outcome] at h
  rw [accumulate]
  cases hevaluate : evaluate s.degrees s.buffer with
  | ok value =>
      rw [hevaluate] at h
      cases h
  | error other =>
      cases other with
      | blank =>
          rw [hevaluate] at h
          cases h
      | grammar | failure => rfl

theorem equals_of_isBlank (h : Text.IsBlank s.buffer) : s.equals = (s, []) := by
  have hnone : s.outcome = none := by rw [outcome, evaluate_of_isBlank s.degrees h]
  rw [outcome_eq] at hnone
  rw [equals]
  cases hcalculate : calculate s.degrees s.buffer with
  | ok result =>
      rw [hcalculate] at hnone
      cases hnone
  | error other =>
      cases other with
      | blank => rfl
      | grammar | failure =>
          rw [hcalculate] at hnone
          cases hnone

theorem accumulate_of_isBlank (h : Text.IsBlank s.buffer) (hlast : s.lastValue = none)
    (combine : Float → Float → Float) (notice : Notice) :
    s.accumulate combine notice = (s, []) := by
  rw [accumulate, evaluate_of_isBlank s.degrees h, hlast]

theorem step_of_fault (h : s.outcome = some (.error fault)) {action : Action}
    (haction : action ∈ [.addToMemory, .subtractFromMemory]) :
    s.step (.act action) = s.signalError := by
  simp only [List.mem_cons, List.not_mem_nil, or_false] at haction
  rcases haction with rfl | rfl
  · exact accumulate_of_fault h Float.add .memoryAdded
  · exact accumulate_of_fault h Float.sub .memorySubtracted

theorem step_of_isBlank (h : Text.IsBlank s.buffer) (hlast : s.lastValue = none) {action : Action}
    (haction : action ∈ [.addToMemory, .subtractFromMemory]) : s.step (.act action) = (s, []) := by
  simp only [List.mem_cons, List.not_mem_nil, or_false] at haction
  rcases haction with rfl | rfl
  · exact accumulate_of_isBlank h hlast Float.add .memoryAdded
  · exact accumulate_of_isBlank h hlast Float.sub .memorySubtracted

theorem lastValue_step (s : Session) (command : Command) :
    (s.step command).1.lastValue = ((s.evaluation? command).map Prod.fst).or s.lastValue := by
  obtain ⟨text, h⟩ := s.exists_step command
  rw [h]

theorem lastValue_run (s : Session) (commands : List Command) :
    (s.run commands).1.lastValue = ((s.lastEvaluation commands).map Prod.fst).or s.lastValue := by
  induction commands generalizing s with
  | nil => rfl
  | cons command commands ih =>
      rw [run_cons, ih, lastValue_step, lastEvaluation, Option.map_or, Option.or_assoc]

end Session

/-- An expression that cannot be evaluated is shown and announced as an error by an evaluation,
which empties it, and by both commands that change the memory, which keep it. Nothing else changes.
A blank expression changes nothing and has no effects, for the commands that change the memory as
long as no evaluation of the run had a value. -/
theorem errors_are_atomic (screen : Screen) (preferences : Preferences) (commands : List Command) :
    let run := (Session.start preferences).run commands
    let s := run.1
    let shown := screen.after (Session.startEffects ++ run.2)
    let words := preferences.language.lexicon
    let phrase := words.notice .calculationError
    let effects := .showResult words.error :: if s.voiceActive then
      [.announce phrase preferences.language] else []
    (∀ fault, ¬ Text.IsBlank s.buffer → evaluate s.degrees s.buffer = .error fault →
      s.step (.act .equals) = ({ s with buffer := "", lastAnnouncement := phrase },
        effects ++ [.showExpression "0"]) ∧
      shown.after (s.step (.act .equals)).2 = ⟨"0", words.error⟩ ∧
      ∀ action ∈ [.addToMemory, .subtractFromMemory],
        s.step (.act action) = ({ s with lastAnnouncement := phrase }, effects) ∧
        shown.after (s.step (.act action)).2 = { shown with result := words.error }) ∧
    (Text.IsBlank s.buffer →
      s.step (.act .equals) = (s, []) ∧
      ((∀ before later, commands = before ++ .act .equals :: later →
          ∀ value, ((Session.start preferences).run before).1.outcome ≠ some (.ok value)) →
        ∀ action ∈ [.addToMemory, .subtractFromMemory], s.step (.act action) = (s, []))) := by
  intro run s shown words phrase effects
  have hlanguage : s.language = preferences.language := Session.language_run _ commands
  have herror : s.signalError = ({ s with lastAnnouncement := phrase }, effects) := by
    rw [Session.signalError_eq, Session.lexicon, hlanguage]
  have hshown : shown.after effects = { shown with result := words.error } := by
    have hafter := s.after_signalError shown
    rwa [herror, Session.lexicon, hlanguage] at hafter
  refine ⟨fun fault hblank hevaluate => ?_,
    fun hblank => ⟨Session.equals_of_isBlank hblank, fun hnever action haction => ?_⟩⟩
  · have houtcome := Session.outcome_of_fault hblank hevaluate
    have hequals : s.step (.act .equals) = _ := Session.equals_of_fault houtcome
    rw [hequals, herror]
    refine ⟨rfl, ?_, fun action haction => ?_⟩
    · rw [Screen.after_append, hshown]
      rfl
    · rw [Session.step_of_fault houtcome haction, herror]
      exact ⟨rfl, hshown⟩
  · have hlast : s.lastValue = none := by
      change ((Session.start preferences).run commands).1.lastValue = none
      rw [Session.lastValue_run, Session.lastEvaluation_eq_none_iff.2 hnever]
      rfl
    exact Session.step_of_isBlank hblank hlast haction

theorem errors_are_atomic_division :
    ∃ s t : Session,
      s = ((Session.start ⟨.english, true, true⟩).run [.enter "2", .act .equals, .press "/",
        .press "0"]).1 ∧
      s.buffer = "2/0" ∧ (∃ value, s.lastValue = some value) ∧
      s.step (.act .equals) =
        ({ s with buffer := "", lastAnnouncement := "calculation error" },
          [.showResult "Error", .announce "calculation error" .english, .showExpression "0"]) ∧
      s.step (.act .subtractFromMemory) =
        ({ s with lastAnnouncement := "calculation error" },
          [.showResult "Error", .announce "calculation error" .english]) ∧
      t = ((Session.start ⟨.persian, false, false⟩).run [.press "(", .act .equals,
        .enter "\u3000"]).1 ∧
      t.buffer = "\u3000" ∧ t.step (.act .equals) = (t, []) ∧
      t.step (.act .addToMemory) = (t, []) := by
  obtain ⟨s, hs⟩ : ∃ s, s = ((Session.start ⟨.english, true, true⟩).run
      [.enter "2", .act .equals, .press "/", .press "0"]).1 := ⟨_, rfl⟩
  obtain ⟨t, ht⟩ : ∃ t, t = ((Session.start ⟨.persian, false, false⟩).run
      [.press "(", .act .equals, .enter "\u3000"]).1 := ⟨_, rfl⟩
  have hbuffer : s.buffer = "2/0" := by rw [hs]; decide +kernel
  have hvoice : s.voiceActive = true := by rw [hs]; decide +kernel
  have hvalue : s.lastValue = some (Float.ofBits 0x4000000000000000) := by rw [hs]; decide +kernel
  have hvisible : ¬ Text.IsBlank s.buffer := by
    rw [hbuffer]
    exact fun h => absurd (h '2' (by simp)) (by decide)
  have hfault : evaluate s.degrees s.buffer =
      .error (.failure (.notFinite (Float.ofBits 0x7FF0000000000000))) := by
    rw [hs]
    decide +kernel
  have hspace : t.buffer = "\u3000" := by rw [ht]; decide +kernel
  have hblank : Text.IsBlank t.buffer := by rw [hspace]; decide +kernel
  have hnever : (Session.start ⟨.persian, false, false⟩).lastEvaluation [.press "(", .act .equals,
      .enter "\u3000"] = none := by
    decide +kernel
  have herrors := (errors_are_atomic Screen.initial ⟨.english, true, true⟩
    [.enter "2", .act .equals, .press "/", .press "0"]).1
  have hblanks := (errors_are_atomic Screen.initial ⟨.persian, false, false⟩
    [.press "(", .act .equals, .enter "\u3000"]).2
  simp only [← hs, ← ht, hvoice, if_true] at herrors hblanks
  obtain ⟨hequals, -, hactions⟩ := herrors _ hvisible hfault
  obtain ⟨hequals', hactions'⟩ := hblanks hblank
  have hsubtract := (hactions .subtractFromMemory (by simp)).1
  rw [← hvoice] at hequals hsubtract
  exact ⟨s, t, hs, hbuffer, ⟨_, hvalue⟩, hequals, hsubtract, ht, hspace, hequals',
    hactions' (Session.lastEvaluation_eq_none_iff.1 hnever) .addToMemory (by simp)⟩

end TalkingCalculator
