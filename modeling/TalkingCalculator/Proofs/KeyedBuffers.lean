import TalkingCalculator.Proofs.FaultKinds
import TalkingCalculator.Proofs.Gestures
import TalkingCalculator.Proofs.KeyedTexts
import TalkingCalculator.Proofs.SessionSteps

namespace TalkingCalculator

open Input Number Buffer

/-- Whether the window offers a command. Its keys type units, and it has no field for a whole
expression. -/
def Command.IsOffered : Command → Prop
  | press key => IsUnit key.toList
  | enter _ => False
  | _ => True

instance (command : Command) : Decidable command.IsOffered :=
  match command with
  | .press key => inferInstanceAs (Decidable (IsUnit key.toList))
  | .enter _ => inferInstanceAs (Decidable False)
  | .act _ | .enableVoice | .muteVoice | .toggleDegrees => inferInstanceAs (Decidable True)

theorem Widget.isOffered_of_mem_commands :
    ∀ widget ∈ all, ∀ voiceActive, ∀ command ∈ widget.commands voiceActive, command.IsOffered := by
  decide +kernel

theorem isUnit_of_mem_typeable : ∀ c ∈ typeable, IsUnit [c] := by
  have hall : ∀ c ∈ typeable, isUnitCharacter c = true := List.all_eq_true.1 (by decide)
  exact fun c hc => .inl ⟨c, rfl, hall c hc⟩

theorem Gesture.exists_keys_or_command (gesture : Gesture) (voiceActive : Bool) :
    (∃ keys : List String, (∀ key ∈ keys, IsUnit key.toList) ∧
      gesture.commands voiceActive = keys.map .press) ∨
      ∃ command : Command, command.IsOffered ∧ gesture.commands voiceActive = [command] := by
  cases gesture with
  | keyboard event =>
      cases event with
      | text typed =>
          refine .inl ⟨(typed.toList.filter typeable.contains).map String.singleton,
            fun key hkey => ?_, ?_⟩
          · obtain ⟨c, hc, rfl⟩ := List.mem_map.1 hkey
            rw [String.toList_singleton]
            exact isUnit_of_mem_typeable c (List.contains_iff_mem.1 (List.mem_filter.1 hc).2)
          · rw [List.map_map]
            rfl
      | key key => exact .inr ⟨.act key.action, trivial, rfl⟩
      | click label => exact .inl ⟨[], by simp, rfl⟩
  | click widget shown =>
      have hoffered := Widget.isOffered_of_mem_commands widget shown voiceActive
      cases widget with
      | tracePanel => exact .inl ⟨[], by simp, rfl⟩
      | _ => exact .inr ⟨_, hoffered _ (by simp [Widget.commands]), rfl⟩

namespace Session

variable {s : Session}

section Composed

variable {P : List Char → Prop} (hP : IsAlphabet P)
include hP

theorem isComposed_step (h : IsComposed P s.buffer.toList)
    (hmemory : IsComposed P (text s.memory).toList) {command : Command}
    (hoffered : command.IsOffered) : IsComposed P (s.step command).1.buffer.toList := by
  rw [buffer_step]
  cases command with
  | press key =>
      rw [bufferAfter, String.toList_append]
      exact h.append (.of_part (hP.of_isUnit hoffered))
  | enter text => exact hoffered.elim
  | act action =>
      cases action with
      | clear => exact .nil
      | erase =>
          rw [bufferAfter, String.toList_ofList]
          exact h.dropLastKey hP
      | equals =>
          rw [bufferAfter]
          split
          · next value houtcome =>
              exact (isKeyed_iff.1
                (isKeyed_text (isFinite_of_evaluate (outcome_eq_ok_iff.1 houtcome)))).mono
                  hP.of_isUnit
          · exact .nil
          · exact h
      | recallMemory => exact h.recalled hP hmemory
      | clearMemory | addToMemory | subtractFromMemory => exact h
  | enableVoice | muteVoice | toggleDegrees => exact h

theorem isComposed_run_press (h : IsComposed P s.buffer.toList) {keys : List String}
    (hkeys : ∀ key ∈ keys, IsUnit key.toList) :
    IsComposed P (s.run (keys.map .press)).1.buffer.toList := by
  rw [(s.run_press keys).1, String.toList_append, String.toList_join]
  refine h.append ⟨keys.map String.toList, fun u hu => ?_, rfl⟩
  obtain ⟨key, hkey, rfl⟩ := List.mem_map.1 hu
  exact hP.of_isUnit (hkeys key hkey)

end Composed

theorem outcome_ne_grammar (h : IsKeyed s.buffer.toList) (fault : GrammarFault) :
    s.outcome ≠ some (.error (.grammar fault)) := by
  rw [outcome]
  by_cases hblank : Text.IsBlank s.buffer
  · rw [evaluate_of_isBlank s.degrees hblank]
    simp
  · -- A keyed text is prepared as it is, and it is permitted, so that only its evaluation can fail.
    have hpermitted : IsPermittedText (replaceGlyphs (Text.trim s.buffer.toList)) := by
      rw [h.replaceGlyphs_trim]
      exact h.isPermittedText
    have hfails := failsOnly_evaluate s.degrees hblank hpermitted
    cases hevaluate : evaluate s.degrees s.buffer with
    | ok value => simp
    | error other =>
        obtain ⟨cause, rfl⟩ := hfails other hevaluate
        simp

end Session

namespace Window

variable {w : Window}

section Composed

variable {P : List Char → Prop} (hP : IsAlphabet P)
include hP

theorem isComposed_obey (h : IsComposed P w.session.buffer.toList)
    (hmemory : IsComposed P (text w.session.memory).toList) (gesture : Gesture) :
    IsComposed P (w.obey gesture).session.buffer.toList := by
  rw [session_obey]
  rcases gesture.exists_keys_or_command w.session.voiceActive with
    ⟨keys, hkeys, hcommands⟩ | ⟨command, hoffered, hcommands⟩
  · rw [hcommands]
    exact Session.isComposed_run_press hP h hkeys
  · rw [hcommands]
    exact Session.isComposed_step hP h hmemory hoffered

theorem isComposed_obeyAll (h : IsComposed P w.session.buffer.toList) (gestures : List Gesture)
    (hmemory : ∀ before, before <+: gestures →
      IsComposed P (text (w.obeyAll before).session.memory).toList) :
    IsComposed P (w.obeyAll gestures).session.buffer.toList := by
  induction gestures generalizing w with
  | nil => exact h
  | cons gesture gestures ih =>
      refine ih (isComposed_obey hP h (hmemory [] List.nil_prefix) gesture) ?_
      intro before hbefore
      exact hmemory (gesture :: before) (List.cons_prefix_cons.2 ⟨rfl, hbefore⟩)

end Composed

theorem isKeyed_obeyAll (h : IsKeyed w.session.buffer.toList) (gestures : List Gesture)
    (hmemory : ∀ before, before <+: gestures → IsFinite (w.obeyAll before).session.memory) :
    IsKeyed (w.obeyAll gestures).session.buffer.toList :=
  isComposed_obeyAll isAlphabet_isUnit h gestures fun before hbefore =>
    isKeyed_text (hmemory before hbefore)

end Window

/-- While the memory is finite, the buffer of a window is a sequence of units, of which the last is
erased as a whole, and its evaluation finds no fault of the grammar. -/
theorem buffer_is_keyed (preferences : Preferences) (gestures : List Gesture)
    (hmemory : ∀ before, before <+: gestures →
      IsFinite ((Window.start preferences).obeyAll before).session.memory) :
    let s := ((Window.start preferences).obeyAll gestures).session
    (∃ us : List (List Char), (∀ u ∈ us, IsUnit u) ∧ s.buffer.toList = us.flatten) ∧
      (∀ us u, (∀ v ∈ us ++ [u], IsUnit v) → s.buffer.toList = (us ++ [u]).flatten →
        (s.step (.act .erase)).1.buffer.toList = us.flatten) ∧
      ∀ fault, s.outcome ≠ some (.error (.grammar fault)) := by
  intro s
  have hstart : IsKeyed (Window.start preferences).session.buffer.toList := .nil
  have hkeyed : IsKeyed s.buffer.toList := Window.isKeyed_obeyAll hstart gestures hmemory
  refine ⟨?_, fun us u hunits hbuffer => ?_, Session.outcome_ne_grammar hkeyed⟩
  · obtain ⟨us, hus, hflatten⟩ := hkeyed
    exact ⟨us, hus, hflatten.symm⟩
  · obtain ⟨hus, hu⟩ := List.forall_mem_append.1 hunits
    rw [Session.buffer_step, Session.bufferAfter, String.toList_ofList, hbuffer,
      List.flatten_append, List.flatten_singleton, dropLastKey_append hus (hu u (by simp))]

theorem buffer_is_keyed_composite :
    ∃ gestures s,
      gestures = [.keyboard (.text "2*3a"), .click (.action .subtractFromMemory) (by decide),
        .click (.action .recallMemory) (by decide), .keyboard (.text "/"),
        .click (.key "sqrt(") (by decide)] ∧
      s = ((Window.start ⟨.persian, true, true⟩).obeyAll gestures).session ∧
      (∀ before, before <+: gestures →
        IsFinite ((Window.start ⟨.persian, true, true⟩).obeyAll before).session.memory) ∧
      s.buffer.toList = [['-'], ['6'], ['/'], "sqrt(".toList].flatten ∧
      (s.step (.act .erase)).1.buffer.toList = [['-'], ['6'], ['/']].flatten ∧
      ∀ fault, s.outcome ≠ some (.error (.grammar fault)) := by
  obtain ⟨gestures, hgestures⟩ : ∃ gestures : List Gesture, gestures = [.keyboard (.text "2*3a"),
      .click (.action .subtractFromMemory) (by decide), .click (.action .recallMemory) (by decide),
      .keyboard (.text "/"), .click (.key "sqrt(") (by decide)] := ⟨_, rfl⟩
  have hmemory : ∀ before, before <+: gestures →
      IsFinite ((Window.start ⟨.persian, true, true⟩).obeyAll before).session.memory := by
    intro before hbefore
    simp only [hgestures, List.prefix_cons_iff, List.prefix_nil] at hbefore
    rcases hbefore with rfl | ⟨_, rfl,
      rfl | ⟨_, rfl, rfl | ⟨_, rfl, rfl | ⟨_, rfl, rfl | ⟨_, rfl, rfl⟩⟩⟩⟩⟩ <;> decide +kernel
  obtain ⟨-, herase, hgrammar⟩ := buffer_is_keyed ⟨.persian, true, true⟩ gestures hmemory
  have hbuffer : ((Window.start ⟨.persian, true, true⟩).obeyAll gestures).session.buffer.toList =
      [['-'], ['6'], ['/'], "sqrt(".toList].flatten := by
    rw [hgestures]
    decide +kernel
  exact ⟨gestures, _, hgestures, rfl, hmemory, hbuffer,
    herase [['-'], ['6'], ['/']] "sqrt(".toList (by decide) hbuffer, hgrammar⟩

end TalkingCalculator
