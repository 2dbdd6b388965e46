import TalkingCalculator.Window.Basic

/-!
# Gestures

A user acts on a window by events of the keyboard and by clicks on its widgets. Each of these
gestures gives the session commands, and a frame is a sequence of gestures.
-/

namespace TalkingCalculator

/-- What a user does to a window at a time. -/
inductive Gesture where
  | keyboard (event : Event)
  | click (widget : Widget) (shown : widget ∈ Widget.all)

/-- The commands of a click, given whether the voice is active. -/
def Widget.commands (voiceActive : Bool) : Widget → List Command
  | voiceBox => [voiceCommand (!voiceActive)]
  | degreesBox => [.toggleDegrees]
  | key text => [.press text]
  | action act => [.act act]
  | tracePanel => []

def Gesture.commands (voiceActive : Bool) : Gesture → List Command
  | keyboard event => Window.keyboardCommands event
  | click widget _ => widget.commands voiceActive

namespace Window

def obey (w : Window) : Gesture → Window
  | .keyboard event => (w.run (keyboardCommands event)).1
  | .click widget _ => (w.click widget).1

def obeyAll (w : Window) (gestures : List Gesture) : Window :=
  gestures.foldl obey w

theorem session_obey (w : Window) (gesture : Gesture) :
    (w.obey gesture).session = (w.session.run (gesture.commands w.session.voiceActive)).1 := by
  cases gesture with
  | keyboard event => rfl
  | click widget shown => cases widget <;> rfl

theorem screen_obey (w : Window) (gesture : Gesture) :
    (w.obey gesture).screen =
      w.screen.after (w.session.run (gesture.commands w.session.voiceActive)).2 := by
  cases gesture with
  | keyboard event => rfl
  | click widget shown => cases widget <;> rfl

theorem exists_run_obeyAll (w : Window) (gestures : List Gesture) :
    ∃ commands, (w.obeyAll gestures).session = (w.session.run commands).1 ∧
      (w.obeyAll gestures).screen = w.screen.after (w.session.run commands).2 := by
  induction gestures generalizing w with
  | nil => exact ⟨[], rfl, rfl⟩
  | cons gesture gestures ih =>
      obtain ⟨later, hsession, hscreen⟩ := ih (w.obey gesture)
      rw [session_obey] at hsession hscreen
      rw [screen_obey, ← Screen.after_append] at hscreen
      refine ⟨gesture.commands w.session.voiceActive ++ later, ?_⟩
      rw [Session.run_append]
      exact ⟨hsession, hscreen⟩

theorem run_append_eq (w : Window) (first second : List Command) :
    w.run (first ++ second) = (((w.run first).1.run second).1,
      (w.run first).2 ++ ((w.run first).1.run second).2) := by
  simp only [run, Session.run_append, Screen.after_append]

theorem run_append (w : Window) (first second : List Command) :
    (w.run (first ++ second)).1 = ((w.run first).1.run second).1 := by
  rw [run_append_eq]

theorem obeyAll_keyboard (w : Window) (events : List Event) :
    w.obeyAll (events.map .keyboard) = (w.run (events.flatMap keyboardCommands)).1 := by
  induction events generalizing w with
  | nil => rfl
  | cons event events ih =>
      rw [List.flatMap_cons, run_append, ← ih]
      rfl

theorem exists_obeyAll_clickAll (w : Window) {widgets : List Widget}
    (h : ∀ widget ∈ widgets, widget ∈ Widget.all) :
    ∃ gestures, w.obeyAll gestures = (w.clickAll widgets).1 := by
  induction widgets generalizing w with
  | nil => exact ⟨[], rfl⟩
  | cons widget widgets ih =>
      obtain ⟨gestures, hgestures⟩ :=
        ih (w.click widget).1 fun other hother => h other (by simp [hother])
      exact ⟨.click widget (h widget (by simp)) :: gestures, hgestures⟩

theorem exists_obeyAll_frame (w : Window) (events : List Event) :
    ∃ gestures, w.obeyAll gestures = (w.frame events).1 := by
  have hshown : ∀ widget ∈ Widget.all.filter fun widget => events.contains (.click widget.label),
      widget ∈ Widget.all :=
    fun widget h => (List.mem_filter.1 h).1
  obtain ⟨clicks, hclicks⟩ :=
    (w.run (events.flatMap keyboardCommands)).1.exists_obeyAll_clickAll hshown
  refine ⟨events.map .keyboard ++ clicks, ?_⟩
  rw [obeyAll, List.foldl_append]
  change ((w.obeyAll (events.map .keyboard)).obeyAll clicks) = _
  rw [obeyAll_keyboard, hclicks]
  rfl

end Window

end TalkingCalculator
