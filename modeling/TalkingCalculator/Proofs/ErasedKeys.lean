import TalkingCalculator.Proofs.DefinedSums
import TalkingCalculator.Proofs.KeyedBuffers
import TalkingCalculator.Proofs.MemoryRegister
import TalkingCalculator.Proofs.ShownTexts

namespace TalkingCalculator

open Number Buffer

theorem Buffer.isComposed_text {x : Float} (h : ¬ IsUndefined x) :
    IsComposed IsFragment (text x).toList := by
  by_cases hfinite : IsFinite x
  · exact (isKeyed_iff.1 (isKeyed_text hfinite)).mono isAlphabet_isFragment.of_isUnit
  · have hinfinity : IsComposed IsFragment "Infinity".toList :=
      .of_characters fun c hc => .inr ⟨c, hc, rfl⟩
    have hminus : IsComposed IsFragment ['-'] := .of_part (.inl (by decide))
    rw [text, if_neg h, if_pos hfinite]
    split
    · exact hminus.append hinfinity
    · exact hinfinity

namespace Session

variable {s : Session}

theorem not_isUndefined_combined {combine : Float → Float → Float} (h : ¬ IsUndefined s.memory)
    (hcombine : ∀ v ∈ s.operand?, ¬ IsUndefined (combine s.memory v)) :
    ¬ IsUndefined (s.combined combine) := by
  rw [combined]
  cases hoperand : s.operand? with
  | none => exact h
  | some v => exact not_isUndefined_toTwelvePlaces (hcombine v hoperand)

theorem Rounded.not_isUndefined_step (hrounded : s.Rounded) (h : ¬ IsUndefined s.memory)
    (command : Command) :
    ¬ IsUndefined (s.step command).1.memory := by
  -- The values that are combined with the memory are finite, so that the memory stays a number.
  rw [s.memory_step command]
  cases command with
  | act action =>
      cases action with
      | clearMemory => exact not_isUndefined isFinite_zero
      | addToMemory =>
          exact not_isUndefined_combined h fun v hv =>
            not_isUndefined_add h (hrounded.isFinite_operand v hv)
      | subtractFromMemory =>
          exact not_isUndefined_combined h fun v hv =>
            not_isUndefined_sub h (hrounded.isFinite_operand v hv)
      | _ => exact h
  | _ => exact h

theorem Rounded.not_isUndefined_run (hrounded : s.Rounded) (h : ¬ IsUndefined s.memory)
    (commands : List Command) :
    ¬ IsUndefined (s.run commands).1.memory := by
  induction commands generalizing s with
  | nil => exact h
  | cons command commands ih =>
      rw [run_cons]
      exact ih (hrounded.step command) (hrounded.not_isUndefined_step h command)

theorem press_eq (s : Session) {key : String} (h : key ≠ "") :
    (s.press key).1 =
      { s with buffer := s.buffer ++ key, lastAnnouncement := s.lexicon.readPressedKey key } := by
  rw [press, if_neg h]
  rfl

theorem erase_eq {kept : String} (hkept : String.ofList (dropLastKey s.buffer.toList) = kept)
    (h : kept ≠ s.buffer) :
    s.erase.1 = { s with buffer := kept, lastAnnouncement := s.lexicon.notice .deleted } := by
  simp only [erase, hkept, if_neg h]
  rfl

theorem run_press_erase (h : IsComposed IsFragment s.buffer.toList) {key : String}
    (hkey : IsUnit key.toList) :
    (s.run [.press key, .act .erase]).1 =
      { s with lastAnnouncement := s.lexicon.notice .deleted } := by
  have hne : key ≠ "" := by
    rintro rfl
    exact IsFragment.ne_nil (.inl hkey) String.toList_empty
  have hkept : String.ofList (dropLastKey (s.buffer ++ key).toList) = s.buffer := by
    obtain ⟨us, hus, hflatten⟩ := h
    rw [String.toList_append, ← hflatten, dropLastKey_append_fragment hus (.inl hkey), hflatten,
      String.ofList_toList]
  have hchanged : s.buffer ≠ s.buffer ++ key := by
    intro heq
    have hchars := congrArg String.toList heq
    rw [String.toList_append, List.self_eq_append_right, String.toList_eq_nil_iff] at hchars
    exact hne hchars
  have herase :=
    erase_eq
      (s := { s with buffer := s.buffer ++ key, lastAnnouncement := s.lexicon.readPressedKey key })
        hkept hchanged
  rw [run_cons, run_cons, run_nil, step, press_eq s hne]
  exact herase

theorem after_press_erase {screen : Screen} (hscreen : screen.expression = s.expression)
    (h : IsComposed IsFragment s.buffer.toList) {key : String} (hkey : IsUnit key.toList) :
    screen.after (s.run [.press key, .act .erase]).2 = screen := by
  have hpress := after_step hscreen (.press key)
  have herase := after_step (congrArg Screen.expression hpress) (.act .erase)
  have hlast := run_press_erase h hkey
  rw [run_cons, run_cons, run_nil] at hlast
  rw [hlast] at herase
  have hafter : screen.after (s.run [.press key, .act .erase]).2 =
      ⟨s.expression, screen.result⟩ := by
    rw [run_cons, run_cons, run_nil, List.append_nil, Screen.after_append, herase, hpress]
    rfl
  rw [hafter, ← hscreen]

end Session

namespace Window

theorem run_press_erase {w : Window} (h : IsComposed IsFragment w.session.buffer.toList)
    (hscreen : w.screen.expression = w.session.expression) {key : String}
    (hkey : IsUnit key.toList) :
    (w.run [.press key, .act .erase]).1 =
      { w with session :=
          { w.session with lastAnnouncement := w.session.lexicon.notice .deleted } } := by
  rw [run]
  simp only [Session.run_press_erase h hkey, Session.after_press_erase hscreen h hkey]

theorem isComposed_buffer (preferences : Preferences) (gestures : List Gesture) :
    IsComposed IsFragment ((start preferences).obeyAll gestures).session.buffer.toList ∧
      ((start preferences).obeyAll gestures).screen.expression =
        ((start preferences).obeyAll gestures).session.expression := by
  constructor
  · refine isComposed_obeyAll isAlphabet_isFragment .nil gestures fun before _ => ?_
    obtain ⟨commands, hsession, -⟩ := (start preferences).exists_run_obeyAll before
    rw [hsession]
    exact isComposed_text
      ((Session.Rounded.start preferences).not_isUndefined_run
        (not_isUndefined isFinite_zero) commands)
  · obtain ⟨commands, hsession, hscreen⟩ := (start preferences).exists_run_obeyAll gestures
    rw [hsession, hscreen]
    exact ((Session.published_start Screen.initial preferences).run commands).expression

end Window

/-- Erasing undoes the press of any key of the window: the expression is the one before, and so is
all else but the announcement. -/
theorem erase_undoes_press (preferences : Preferences) (gestures : List Gesture) (key : String)
    (hkey : .key key ∈ Widget.all) :
    let w := (Window.start preferences).obeyAll gestures
    let pressed := (w.click (.key key)).1
    let erased := (pressed.click (.action .erase)).1
    pressed.session.buffer = w.session.buffer ++ key ∧
      erased =
        { w with session :=
            { w.session with lastAnnouncement := w.session.lexicon.notice .deleted } } := by
  intro w pressed erased
  obtain ⟨hfragments, hscreen⟩ := Window.isComposed_buffer preferences gestures
  have hunit : IsUnit key.toList :=
    Widget.isOffered_of_mem_commands _ hkey w.session.voiceActive (.press key)
      (List.mem_singleton_self _)
  have herased : erased = (w.run [.press key, .act .erase]).1 :=
    (w.run_append [.press key] [.act .erase]).symm
  constructor
  · exact w.session.buffer_step (.press key)
  · rw [herased]
    exact Window.run_press_erase hfragments hscreen hunit

theorem erase_undoes_press_infinity :
    ∃ gestures w,
      gestures = [.keyboard (.text "1"), .click (.key "e") (by decide), .keyboard (.text "308"),
        .click (.action .addToMemory) (by decide), .click (.action .addToMemory) (by decide),
        .keyboard (.key .escape), .click (.action .recallMemory) (by decide),
        .keyboard (.key .backspace), .keyboard (.key .backspace), .keyboard (.key .backspace)] ∧
      w = (Window.start ⟨.persian, true, true⟩).obeyAll gestures ∧ ¬ IsFinite w.session.memory ∧
      w.session.buffer = "Infin" ∧ .key "(" ∈ Widget.all ∧
      (w.click (.key "(")).1.session.buffer = "Infin(" ∧
      ((w.click (.key "(")).1.click (.action .erase)).1.session.buffer = "Infin" ∧
      ((w.click (.key "(")).1.click (.action .erase)).1.screen = w.screen := by
  obtain ⟨gestures, hgestures⟩ : ∃ gestures : List Gesture,
      gestures = [.keyboard (.text "1"), .click (.key "e") (by decide), .keyboard (.text "308"),
        .click (.action .addToMemory) (by decide), .click (.action .addToMemory) (by decide),
        .keyboard (.key .escape), .click (.action .recallMemory) (by decide),
        .keyboard (.key .backspace), .keyboard (.key .backspace), .keyboard (.key .backspace)] :=
    ⟨_, rfl⟩
  have hkey : .key "(" ∈ Widget.all := by decide
  obtain ⟨hpressed, herased⟩ := erase_undoes_press ⟨.persian, true, true⟩ gestures "(" hkey
  have hmemory :
      ¬ IsFinite ((Window.start ⟨.persian, true, true⟩).obeyAll gestures).session.memory := by
    rw [hgestures]
    decide +kernel
  have hbuffer : ((Window.start ⟨.persian, true, true⟩).obeyAll gestures).session.buffer =
      "Infin" := by
    rw [hgestures]
    decide +kernel
  refine ⟨gestures, _, hgestures, rfl, hmemory, hbuffer, hkey, ?_, ?_, ?_⟩
  · rw [hpressed, hbuffer]
    rfl
  · rw [herased]
    exact hbuffer
  · rw [herased]

end TalkingCalculator
