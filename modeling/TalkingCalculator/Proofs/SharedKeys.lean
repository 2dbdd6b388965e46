import Mathlib
import TalkingCalculator.Proofs.Gestures

namespace TalkingCalculator

/-- A key of the keyboard that is also a button. -/
inductive SharedKey where
  | character (c : Char) (h : c ∈ typeable)
  | special (key : SpecialKey)

namespace SharedKey

def label : SharedKey → String
  | character c _ => String.singleton c
  | special .enter => "="
  | special .backspace => "DEL"
  | special .escape => "C"

def widget : SharedKey → Widget
  | character c _ => .key (String.singleton c)
  | special key => .action key.action

def command : SharedKey → Command
  | character c _ => .press (String.singleton c)
  | special key => .act key.action

/-- `IsTyped events word` says that events of the keyboard enter a word. A text enters any number of
characters at once. -/
inductive IsTyped : List Event → List SharedKey → Prop
  | nil : IsTyped [] []
  | text {events : List Event} {word : List SharedKey} (s : String)
      (hs : ∀ c ∈ s.toList, c ∈ typeable)
      (h : IsTyped events word) : IsTyped (.text s :: events) (s.toList.pmap character hs ++ word)
  | key {events : List Event} {word : List SharedKey} (key : SpecialKey) (h : IsTyped events word) :
      IsTyped (.key key :: events) (special key :: word)

theorem forall_mem_typeable {s : String} (h : s.toList.all typeable.contains = true) :
    ∀ c ∈ s.toList, c ∈ typeable :=
  fun c hc => List.contains_iff_mem.1 (List.all_eq_true.1 h c hc)

theorem typed_eq (s : String) (hs : ∀ c ∈ s.toList, c ∈ typeable) :
    typed s = (s.toList.pmap character hs).map command := by
  have hkept : s.toList.filter typeable.contains = s.toList :=
    List.filter_eq_self.2 fun c hc => List.contains_iff_mem.2 (hs c hc)
  rw [typed, hkept, List.map_pmap]
  exact (List.pmap_eq_map hs).symm

theorem IsTyped.keyboardCommands_eq {events : List Event} {word : List SharedKey}
    (h : IsTyped events word) :
    events.flatMap Window.keyboardCommands = word.map command := by
  induction h with
  | nil => rfl
  | text s hs h ih =>
      rw [List.flatMap_cons, List.map_append, ih, Window.keyboardCommands, typed_eq s hs]
  | key key h ih => rw [List.flatMap_cons, List.map_cons, ih]; rfl

theorem IsTyped.ne_click {events : List Event} {word : List SharedKey} (h : IsTyped events word)
    (label : String) :
    .click label ∉ events := by
  induction h with
  | nil => exact List.not_mem_nil
  | text s hs h ih => simpa using ih
  | key key h ih => simpa using ih

theorem filter_label (key : SharedKey) :
    (Widget.all.filter fun widget => [Event.click key.label].contains (.click widget.label)) =
      [key.widget] := by
  -- The label of a key's button is on no other widget.
  cases key with
  | character c h =>
      have hall : typeable.all (fun c => (Widget.all.filter fun widget =>
          [Event.click (String.singleton c)].contains (.click widget.label)) = [.key
            (String.singleton c)]) = true := by
        decide +kernel
      exact of_decide_eq_true (List.all_eq_true.1 hall c h)
  | special key => cases key <;> decide +kernel

end SharedKey

namespace Window

/-- The window after frames, one after another, and the effects of all of them. -/
def frames (w : Window) : List (List Event) → Window × List Effect
  | [] => (w, [])
  | events :: later =>
    let (next, effects) := w.frame events
    let (last, more) := next.frames later
    (last, effects ++ more)

theorem run_nil (w : Window) : w.run [] = (w, []) :=
  rfl

theorem frame_of_no_click (w : Window) {events : List Event} (h : ∀ label, .click label ∉ events) :
    w.frame events = w.run (events.flatMap keyboardCommands) := by
  have hwidgets : (Widget.all.filter fun widget => events.contains (.click widget.label)) = [] :=
    List.filter_eq_nil_iff.2 fun widget _ hclick => h widget.label (List.contains_iff_mem.1 hclick)
  rw [frame, hwidgets]
  simp only [clickAll, List.append_nil]

theorem frames_of_no_click (w : Window) {fs : List (List Event)}
    (h : ∀ label, .click label ∉ fs.flatten) :
    w.frames fs = w.run (fs.flatten.flatMap keyboardCommands) := by
  induction fs generalizing w with
  | nil => rfl
  | cons events fs ih =>
      have hevents : ∀ label, .click label ∉ events :=
        fun label hlabel => h label (by simp [hlabel])
      have hlater : ∀ label, .click label ∉ fs.flatten := fun label hlabel =>
        h label (by rw [List.flatten_cons]; exact List.mem_append_right _ hlabel)
      rw [frames, frame_of_no_click w hevents, List.flatten_cons, List.flatMap_append,
        run_append_eq]
      simp only [ih _ hlater]

theorem frame_click (w : Window) (key : SharedKey) :
    w.frame [.click key.label] = w.run [key.command] := by
  rw [frame, key.filter_label]
  cases key <;>
    simp [keyboardCommands, clickAll, SharedKey.widget, SharedKey.command, click, run_nil]

theorem frames_clicks (w : Window) (word : List SharedKey) :
    w.frames (word.map fun key => [.click key.label]) = w.run (word.map SharedKey.command) := by
  induction word generalizing w with
  | nil => rfl
  | cons key word ih =>
      rw [List.map_cons, frames, frame_click]
      simp only [ih]
      exact (w.run_append_eq [key.command] (word.map SharedKey.command)).symm

end Window

/-- A word that is typed, in events and frames of any size, and the same word clicked, one key in
each frame, leave the same window, which is its session and its screen, and have the same effects in
the same order, the announcements among them. -/
theorem keyboard_and_buttons_agree (w : Window) {fs : List (List Event)} {word : List SharedKey}
    (h : SharedKey.IsTyped fs.flatten word) :
    w.frames fs = w.frames (word.map fun key => [.click key.label]) := by
  rw [Window.frames_of_no_click w h.ne_click, h.keyboardCommands_eq, Window.frames_clicks]

theorem keyboard_and_buttons_agree_product :
    ∃ w fs word, w = Window.start ⟨.english, false, true⟩ ∧
      fs = [[.text "12*", .text "(3"], [], [.text "-1)", .key .enter, .key .backspace]] ∧
      word.map SharedKey.label = ["1", "2", "*", "(", "3", "-", "1", ")", "=", "DEL"] ∧
      SharedKey.IsTyped fs.flatten word ∧
      w.frames fs = w.frames (word.map fun key => [.click key.label]) ∧
        (w.frames fs).1.session.buffer = "2" := by
  have h :
      SharedKey.IsTyped [.text "12*", .text "(3", .text "-1)", .key .enter, .key .backspace] _ :=
    .text "12*" (SharedKey.forall_mem_typeable (by decide))
      (.text "(3" (SharedKey.forall_mem_typeable (by decide))
        (.text "-1)" (SharedKey.forall_mem_typeable (by decide))
          (.key .enter (.key .backspace .nil))))
  have hvalue : ((Window.start ⟨.english, false, true⟩).frames
      [[.text "12*", .text "(3"], [],
        [.text "-1)", .key .enter, .key .backspace]]).1.session.buffer = "2" := by
    decide +kernel
  exact ⟨_, _, _, rfl, rfl, by decide, h, keyboard_and_buttons_agree _ h, hvalue⟩

end TalkingCalculator
