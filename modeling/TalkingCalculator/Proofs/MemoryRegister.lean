import Mathlib.Data.List.Induction
import TalkingCalculator.Proofs.RecalledOperands
import TalkingCalculator.Proofs.SessionSteps

namespace TalkingCalculator

open Number

namespace Session

/-- Whether a command combines the memory with a value and the result is not finite. -/
def Overflows (s : Session) : Command → Prop
  | .act .addToMemory => ∃ v ∈ s.operand?, ¬ IsFinite (s.memory.add v)
  | .act .subtractFromMemory => ∃ v ∈ s.operand?, ¬ IsFinite (s.memory.sub v)
  | _ => False

/-- What a run keeps: the memory is a rounded number, and the last value is finite. -/
structure Rounded (s : Session) : Prop where
  memory : ∃ x, s.memory = toTwelvePlaces x
  lastValue : ∀ v ∈ s.lastValue, IsFinite v

variable {s : Session}

theorem zero_eq_toTwelvePlaces : zero = toTwelvePlaces zero := by
  decide +kernel

theorem exists_combined (h : ∃ x, s.memory = toTwelvePlaces x) (combine : Float → Float → Float) :
    ∃ x, s.combined combine = toTwelvePlaces x := by
  rw [combined]
  cases s.operand? with
  | none => exact h
  | some v => exact ⟨combine s.memory v, rfl⟩

theorem isFinite_combined_iff (h : IsFinite s.memory) (combine : Float → Float → Float) :
    IsFinite (s.combined combine) ↔ ¬ ∃ v ∈ s.operand?, ¬ IsFinite (combine s.memory v) := by
  rw [combined]
  cases s.operand? with
  | none => simpa using h
  | some v => simp [isFinite_toTwelvePlaces_iff]

/-- A finite memory stays finite at a command exactly if the command does not overflow. -/
theorem isFinite_memory_step_iff (h : IsFinite s.memory) (command : Command) :
    IsFinite (s.step command).1.memory ↔ ¬ s.Overflows command := by
  rw [s.memory_step command]
  cases command with
  | act action =>
      cases action with
      | clearMemory => exact iff_of_true isFinite_zero id
      | addToMemory => exact isFinite_combined_iff h Float.add
      | subtractFromMemory => exact isFinite_combined_iff h Float.sub
      | _ => exact iff_of_true h id
  | _ => exact iff_of_true h id

theorem Rounded.start (preferences : Preferences) : (Session.start preferences).Rounded := by
  constructor
  · exact ⟨zero, zero_eq_toTwelvePlaces⟩
  · intro v hv
    cases hv

theorem Rounded.step (h : s.Rounded) (command : Command) : (s.step command).1.Rounded := by
  constructor
  · rw [s.memory_step command]
    cases command with
    | act action =>
        cases action with
        | clearMemory => exact ⟨zero, zero_eq_toTwelvePlaces⟩
        | addToMemory => exact exists_combined h.memory Float.add
        | subtractFromMemory => exact exists_combined h.memory Float.sub
        | _ => exact h.memory
    | _ => exact h.memory
  · obtain ⟨text, hstep⟩ := s.exists_step command
    intro v hv
    rw [hstep] at hv
    rcases Option.or_eq_some_iff.1 hv with hv | ⟨-, hv⟩
    · obtain ⟨result, hresult, rfl⟩ := Option.map_eq_some_iff.1 hv
      exact isFinite_of_evaluate (evaluate_of_evaluation? hresult)
    · exact h.lastValue v hv

theorem Rounded.run (h : s.Rounded) (commands : List Command) : (s.run commands).1.Rounded := by
  induction commands generalizing s with
  | nil => exact h
  | cons command commands ih =>
      rw [run_cons]
      exact ih (h.step command)

theorem Rounded.isFinite_operand (h : s.Rounded) : ∀ v ∈ s.operand?, IsFinite v := by
  intro v hv
  unfold operand? at hv
  split at hv
  · next u hu =>
      obtain rfl := Option.some.inj hv
      exact isFinite_of_evaluate hu
  · exact h.lastValue v hv
  · cases hv

theorem run_concat (s : Session) (commands : List Command) (command : Command) :
    (s.run (commands ++ [command])).1 = ((s.run commands).1.step command).1 := by
  rw [run_append]
  rfl

theorem Rounded.evaluate_text_iff (h : s.Rounded) (degrees : Bool) {r : String}
    (hr : r = text s.memory ∨ r = Buffer.operand (text s.memory)) :
    evaluate degrees r = .ok s.memory ↔ IsFinite s.memory := by
  constructor
  · exact isFinite_of_evaluate
  · intro hfinite
    obtain ⟨x, hx⟩ := h.memory
    rw [hx] at hfinite hr ⊢
    have hx' := isFinite_toTwelvePlaces_iff.1 hfinite
    rcases hr with rfl | rfl
    · exact evaluate_text_toTwelvePlaces degrees hx'
    · rw [evaluate_operand degrees hfinite, written_toTwelvePlaces hx']
      exact (if_pos hfinite).trans (congrArg _ (toTwelvePlaces_toTwelvePlaces x))

end Session

/-- The memory is finite throughout a run exactly if no command of the run overflows. -/
theorem memory_isFinite_iff (preferences : Preferences) (commands : List Command) :
    ((∀ before, before <+: commands → IsFinite ((Session.start preferences).run before).1.memory) ↔
      ∀ before command, before ++ [command] <+: commands →
        ¬ ((Session.start preferences).run before).1.Overflows command) ∧
      (∀ v ∈ ((Session.start preferences).run commands).1.operand?, IsFinite v) ∧
      ∀ (degrees : Bool) (r : String),
        r = text ((Session.start preferences).run commands).1.memory ∨
            r = Buffer.operand (text ((Session.start preferences).run commands).1.memory) →
          (evaluate degrees r = .ok ((Session.start preferences).run commands).1.memory ↔
            IsFinite ((Session.start preferences).run commands).1.memory) := by
  have hrounded := (Session.Rounded.start preferences).run commands
  refine ⟨⟨fun hfinite before command hprefix => ?_, fun hsafe before => ?_⟩,
    hrounded.isFinite_operand, fun degrees r hr => hrounded.evaluate_text_iff degrees hr⟩
  · have hbefore := hfinite before ((List.prefix_append before [command]).trans hprefix)
    have hafter := hfinite _ hprefix
    rw [Session.run_concat] at hafter
    exact (Session.isFinite_memory_step_iff hbefore command).1 hafter
  · -- The induction is on the commands run so far: the step lemma needs the memory to be finite
    -- before the last of them.
    induction before using List.reverseRecOn with
    | nil => exact fun _ => isFinite_zero
    | append_singleton before command ih =>
        intro hprefix
        have hbefore := ih ((List.prefix_append before [command]).trans hprefix)
        rw [Session.run_concat]
        exact (Session.isFinite_memory_step_iff hbefore command).2 (hsafe before command hprefix)

theorem memory_isFinite_iff_large :
    ∃ commands s, commands = [.enter "8e307", .act .subtractFromMemory, .act .subtractFromMemory] ∧
      s = ((Session.start ⟨.persian, true, false⟩).run commands).1 ∧
      (∀ before command, before ++ [command] <+: commands →
        ¬ ((Session.start ⟨.persian, true, false⟩).run before).1.Overflows command) ∧
      (∀ v ∈ s.operand?, IsFinite v) ∧ Buffer.operand (text s.memory) = "(-1.6e+308)" ∧
      evaluate false "(-1.6e+308)" = .ok s.memory := by
  refine ⟨_, _, rfl, rfl, ?_⟩
  obtain ⟨hrun, hoperand, hevaluate⟩ := memory_isFinite_iff ⟨.persian, true, false⟩
    [.enter "8e307", .act .subtractFromMemory, .act .subtractFromMemory]
  have hfinite : ∀ before, before <+:
      [.enter "8e307", .act .subtractFromMemory, .act .subtractFromMemory] →
      IsFinite ((Session.start ⟨.persian, true, false⟩).run before).1.memory := by
    intro before hbefore
    simp only [List.prefix_cons_iff, List.prefix_nil] at hbefore
    rcases hbefore with rfl | ⟨_, rfl, rfl | ⟨_, rfl, rfl | ⟨_, rfl, rfl⟩⟩⟩ <;> decide +kernel
  have htext : Buffer.operand (text ((Session.start ⟨.persian, true, false⟩).run
      [.enter "8e307", .act .subtractFromMemory,
        .act .subtractFromMemory]).1.memory) = "(-1.6e+308)" := by decide +kernel
  refine ⟨hrun.1 hfinite, hoperand, htext, ?_⟩
  exact (hevaluate false _ (.inr htext.symm)).2 (hfinite _ (List.prefix_refl _))

/-- The memory overflows when the same large number is added twice. Its text is then no number. -/
theorem memory_overflows :
    ∃ s, s = ((Session.start ⟨.english, false, true⟩).run
        [.enter "1e308", .act .addToMemory, .act .addToMemory, .act .clear, .act .recallMemory]).1 ∧
      ¬ IsFinite s.memory ∧ s.buffer = "Infinity" ∧
      s.outcome = some (.error (.grammar (.disallowed "Infinity"))) :=
  ⟨_, rfl, by decide +kernel, by decide +kernel, by decide +kernel⟩

end TalkingCalculator
