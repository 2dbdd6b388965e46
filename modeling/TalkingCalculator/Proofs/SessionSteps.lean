import TalkingCalculator.Session.Command
import TalkingCalculator.Session.Screen

namespace TalkingCalculator

open Number

namespace Session

/-- The value that is combined with the memory, if there is one. -/
def operand? (s : Session) : Option Float :=
  match evaluate s.degrees s.buffer with
  | .ok value => some value
  | .error .blank => s.lastValue
  | .error _ => none

/-- The memory combined with that value, or as it is if there is none. -/
def combined (s : Session) (combine : Float → Float → Float) : Float :=
  (s.operand?.map fun v => toTwelvePlaces (combine s.memory v)).getD s.memory

def memoryAfter (s : Session) : Command → Float
  | .act .clearMemory => zero
  | .act .addToMemory => s.combined Float.add
  | .act .subtractFromMemory => s.combined Float.sub
  | _ => s.memory

/-- The value and the trace that a command obtains from the expression. -/
def evaluation? (s : Session) : Command → Option (Float × Trace)
  | .act .equals => (calculate s.degrees s.buffer).toOption
  | _ => none

def bufferAfter (s : Session) : Command → String
  | .press key => s.buffer ++ key
  | .enter text => text
  | .act .clear => ""
  | .act .erase => String.ofList (Buffer.dropLastKey s.buffer.toList)
  | .act .equals =>
    match s.outcome with
    | some (.ok value) => text value
    | some (.error _) => ""
    | none => s.buffer
  | .act .recallMemory => Buffer.recalled s.buffer (text s.memory)
  | _ => s.buffer

def degreesAfter (s : Session) : Command → Bool
  | .toggleDegrees => !s.degrees
  | _ => s.degrees

def voiceAfter (s : Session) : Command → Bool
  | .enableVoice => true
  | .muteVoice => false
  | _ => s.voiceActive

/-- The result on the screen after a command, given the one before. -/
def resultAfter (s : Session) (result : String) : Command → String
  | .act .clear => "0"
  | .act .equals =>
    match s.outcome with
    | some (.ok value) => text value
    | some (.error _) => s.lexicon.error
    | none => result
  | .act .addToMemory | .act .subtractFromMemory =>
    match s.outcome with
    | some (.error _) => s.lexicon.error
    | _ => result
  | _ => result

variable {s : Session} {screen : Screen}

theorem outcome_eq (s : Session) :
    s.outcome =
      match calculate s.degrees s.buffer with
      | .ok (value, _) => some (.ok value)
      | .error .blank => none
      | .error fault => some (.error fault) := by
  rw [outcome, evaluate]
  cases calculate s.degrees s.buffer with
  | ok result => rfl
  | error fault => cases fault <;> rfl

theorem calculate_of_evaluation? {command : Command} {result : Float × Trace}
    (h : s.evaluation? command = some result) :
    calculate s.degrees s.buffer = .ok result := by
  unfold evaluation? at h
  split at h
  · cases hcalculate : calculate s.degrees s.buffer with
    | ok result' =>
        rw [hcalculate] at h
        cases h
        rfl
    | error fault =>
        rw [hcalculate] at h
        cases h
  · cases h

theorem evaluate_of_evaluation? {command : Command} {result : Float × Trace}
    (h : s.evaluation? command = some result) :
    evaluate s.degrees s.buffer = .ok result.1 := by
  rw [evaluate, calculate_of_evaluation? h]
  rfl

theorem exists_accumulate (s : Session) (combine : Float → Float → Float) (notice : Notice) :
    ∃ text, (s.accumulate combine notice).1 =
      { s with memory := s.combined combine, lastAnnouncement := text } := by
  unfold accumulate combined operand?
  cases evaluate s.degrees s.buffer with
  | ok v => exact ⟨_, rfl⟩
  | error e =>
      cases e with
      | blank =>
          obtain ⟨buffer, memory, lastValue⟩ := s
          cases lastValue <;> exact ⟨_, rfl⟩
      | grammar | failure => exact ⟨_, rfl⟩

theorem exists_equals (s : Session) :
    ∃ text, s.equals.1 =
      { s with
        buffer := s.bufferAfter (.act .equals)
        lastValue := ((s.evaluation? (.act .equals)).map Prod.fst).or s.lastValue
        trace := (s.evaluation? (.act .equals)).elim s.trace Prod.snd
        lastAnnouncement := text } := by
  rw [equals, bufferAfter, outcome_eq, evaluation?]
  cases calculate s.degrees s.buffer with
  | ok result => exact ⟨_, rfl⟩
  | error e => cases e <;> exact ⟨_, rfl⟩

theorem exists_step (s : Session) (command : Command) :
    ∃ text, (s.step command).1 =
      { s with
        buffer := s.bufferAfter command
        memory := s.memoryAfter command
        lastValue := ((s.evaluation? command).map Prod.fst).or s.lastValue
        trace := (s.evaluation? command).elim s.trace Prod.snd
        lastAnnouncement := text
        degrees := s.degreesAfter command
        voiceActive := s.voiceAfter command } := by
  cases command with
  | press key =>
      rw [step, press]
      split
      · next h => exact ⟨s.lastAnnouncement, by rw [bufferAfter, h, String.append_empty]; rfl⟩
      · exact ⟨_, rfl⟩
  | act action =>
      cases action with
      | erase =>
          simp only [step, act, erase]
          split
          · next h => exact ⟨s.lastAnnouncement, by rw [bufferAfter, h]; rfl⟩
          · exact ⟨_, rfl⟩
      | equals =>
          obtain ⟨text, h⟩ := s.exists_equals
          exact ⟨text, h⟩
      | addToMemory =>
          obtain ⟨text, h⟩ := s.exists_accumulate Float.add .memoryAdded
          exact ⟨text, h⟩
      | subtractFromMemory =>
          obtain ⟨text, h⟩ := s.exists_accumulate Float.sub .memorySubtracted
          exact ⟨text, h⟩
      | _ => exact ⟨_, rfl⟩
  | _ => exact ⟨_, rfl⟩

theorem buffer_step (s : Session) (command : Command) :
    (s.step command).1.buffer = s.bufferAfter command := by
  obtain ⟨text, h⟩ := s.exists_step command
  rw [h]

theorem memory_step (s : Session) (command : Command) :
    (s.step command).1.memory = s.memoryAfter command := by
  obtain ⟨text, h⟩ := s.exists_step command
  rw [h]

theorem language_step (s : Session) (command : Command) :
    (s.step command).1.language = s.language := by
  obtain ⟨text, h⟩ := s.exists_step command
  rw [h]

theorem language_run (s : Session) (commands : List Command) :
    (s.run commands).1.language = s.language := by
  induction commands generalizing s with
  | nil => rfl
  | cons command commands ih => rw [run_cons, ih, language_step]

theorem after_spoken (s : Session) (screen : Screen) : screen.after s.spoken = screen := by
  rw [spoken]
  split <;> rfl

theorem after_announce (s : Session) (text : String) (screen : Screen) :
    screen.after (s.announce text).2 = screen :=
  after_spoken _ screen

theorem after_showAndAnnounce (s : Session) (text : String) (screen : Screen) :
    screen.after (s.showAndAnnounce text).2 = { screen with expression := s.expression } :=
  after_announce s text _

theorem after_signalError (s : Session) (screen : Screen) :
    screen.after s.signalError.2 = { screen with result := s.lexicon.error } :=
  after_announce s _ _

theorem after_result_spoken_shown (result : String) (said next : Session) (screen : Screen) :
    screen.after (.showResult result :: said.spoken ++ [next.shown]) =
      ⟨next.expression, result⟩ := by
  -- What is said between the result and the expression does not reach the screen.
  rw [Screen.after_append]
  change ((Screen.afterOne screen _).after said.spoken).after _ = _
  rw [after_spoken]
  rfl

theorem after_equals (h : screen.expression = s.expression) :
    screen.after s.equals.2 = ⟨s.equals.1.expression,
      s.resultAfter screen.result (.act .equals)⟩ := by
  rw [resultAfter, outcome_eq, equals]
  cases calculate s.degrees s.buffer with
  | ok result => exact after_result_spoken_shown _ _ _ screen
  | error fault =>
      cases fault with
      | blank =>
          rw [← h]
          rfl
      | grammar | failure => exact after_result_spoken_shown _ _ _ screen

theorem after_accumulate (s : Session) (combine : Float → Float → Float) (notice : Notice)
    (screen : Screen) :
    screen.after (s.accumulate combine notice).2 =
      { screen with result := s.resultAfter screen.result (.act .addToMemory) } := by
  rw [resultAfter, outcome, accumulate]
  cases evaluate s.degrees s.buffer with
  | ok value => exact after_announce _ _ _
  | error fault =>
      cases fault with
      | blank =>
          cases s.lastValue with
          | none => rfl
          | some value => exact after_announce _ _ _
      | grammar | failure => exact after_signalError s screen

/-- A screen that shows the expression shows it after every command. -/
theorem after_step (h : screen.expression = s.expression) (command : Command) :
    screen.after (s.step command).2 =
      ⟨(s.step command).1.expression, s.resultAfter screen.result command⟩ := by
  have hscreen : screen = ⟨s.expression, screen.result⟩ := by
    rw [← h]
  cases command with
  | press key =>
      rw [step, press]
      split
      · exact hscreen
      · exact after_showAndAnnounce _ _ _
  | enter text => rfl
  | act action =>
      cases action with
      | clear => exact after_announce _ _ _
      | erase =>
          simp only [step, act, erase]
          split
          · exact hscreen
          · exact after_showAndAnnounce _ _ _
      | equals => exact after_equals h
      | clearMemory => exact (after_announce _ _ _).trans hscreen
      | recallMemory => exact after_showAndAnnounce _ _ _
      | addToMemory | subtractFromMemory =>
          obtain ⟨text, haccumulate⟩ := s.exists_accumulate _ _
          simp only [step, act]
          rw [after_accumulate, haccumulate, h]
          rfl
  | enableVoice => exact (after_announce _ _ _).trans hscreen
  | muteVoice => exact hscreen
  | toggleDegrees => exact (after_announce _ _ _).trans hscreen

end Session

end TalkingCalculator
