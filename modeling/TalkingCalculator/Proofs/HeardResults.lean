import TalkingCalculator.Proofs.AudibleReadings
import TalkingCalculator.Proofs.Utterances

namespace TalkingCalculator

open Text

namespace Speech.Speaker

/-- Whether a speaker acts on a text: it cuts what is being said and starts a program with the text,
or it finds that none can be started. -/
def ActsOn (programs : List String) (s : Speaker) (text : String) (language : Language) : Prop :=
  let next := (s.announce programs text language).1
  let received := arguments s.rate text language
  if canStart programs s.command received then next.started = .begin received :: s.cut.started
    else next.unavailable = true

theorem length_started_cut (s : Speaker) : s.cut.started.length = s.started.length := by
  rw [cut, release]
  split
  · exact List.length_modifyHead
  · rfl

theorem actsOn_iff {s : Speaker} (h : s.unavailable = false) (programs : List String)
    (text : String) (language : Language) :
    s.ActsOn programs text language ↔ ¬ IsBlank text := by
  rw [ActsOn]
  rcases s.announce_cases programs text language with
    ⟨hsilent, hnext⟩ | ⟨-, hvisible, ⟨hstart, hnext⟩ | ⟨hstart, hnext⟩⟩
  · have hblank : IsBlank text := hsilent.resolve_left (by simp [h])
    rw [hnext]
    refine iff_of_false ?_ (not_not_intro hblank)
    split
    · intro hstarted
      have hlength := congrArg List.length hstarted
      rw [List.length_cons, length_started_cut] at hlength
      omega
    · simp [h]
  · rw [hnext, if_pos hstart]
    exact iff_of_true rfl hvisible
  · rw [hnext, if_neg hstart]
    exact iff_of_true rfl hvisible

end Speech.Speaker

namespace Session

/-- What a command says of a number: of the value of an evaluation, or of the memory that it
recalls. -/
def reply? (s : Session) : Command → Option String
  | .act .equals =>
    match s.outcome with
    | some (.ok value) => some (s.lexicon.readNumber value)
    | _ => none
  | .act .recallMemory => some (s.lexicon.read (Number.text s.memory))
  | _ => none

variable {s : Session} {command : Command} {said : String}

theorem announcements_spoken_eq (s : Session) :
    announcements s.spoken = if s.voiceActive then [(s.lastAnnouncement, s.language)] else [] := by
  rw [spoken]
  split <;> rfl

theorem not_isBlank_of_reply? (h : s.reply? command = some said) : ¬ IsBlank said := by
  unfold reply? at h
  split at h
  · split at h
    · obtain rfl := Option.some.inj h
      exact s.language.not_isBlank_readNumber _
    · cases h
  · obtain rfl := Option.some.inj h
    exact s.language.not_isBlank_read (Number.not_isBlank_text s.memory)
  · cases h

theorem announced_of_reply? (h : s.reply? command = some said) :
    (s.step command).1.lastAnnouncement = said ∧
      announcements (s.step command).2 = if s.voiceActive then [(said, s.language)] else [] := by
  unfold reply? at h
  split at h
  · split at h
    · next value houtcome =>
        obtain rfl := Option.some.inj h
        obtain ⟨trace, hcalculate⟩ := exists_calculate_of_outcome houtcome
        rw [step, act, equals, hcalculate]
        refine ⟨rfl, ?_⟩
        have heffects : ∀ (said next : Session) (result : String),
            announcements (.showResult result :: said.spoken ++ [next.shown]) =
              announcements said.spoken ++ [] :=
          fun _ _ _ => List.filterMap_append
        exact (heffects _ _ _).trans ((List.append_nil _).trans (announcements_spoken_eq _))
    · cases h
  · obtain rfl := Option.some.inj h
    exact ⟨rfl, announcements_spoken_eq _⟩
  · cases h

end Session

/-- Something is said of each text that is not blank and of each number. So whatever a session was
told, it says something when an evaluation succeeds and when the memory is recalled, and a speaker
that is available acts on it. -/
theorem something_is_always_said (language : Language) :
    (∀ text, ¬ IsBlank text → ¬ IsBlank (language.lexicon.read text)) ∧
      (∀ x, ¬ IsBlank (language.lexicon.readNumber x)) ∧
      ∀ degrees voiceActive commands command said,
        let s := ((Session.start ⟨language, degrees, voiceActive⟩).run commands).1
        let next := s.step command
        s.reply? command = some said →
          ¬ IsBlank said ∧ next.1.lastAnnouncement = said ∧
            announcements next.2 = (if s.voiceActive then [(said, language)] else []) ∧
            ∀ programs speaker, speaker.unavailable = false →
              Speech.Speaker.ActsOn programs speaker said language := by
  refine ⟨fun text => language.not_isBlank_read, language.not_isBlank_readNumber, ?_⟩
  intro degrees voiceActive commands command said s next hreply
  have hvisible := Session.not_isBlank_of_reply? hreply
  obtain ⟨hlast, hannounced⟩ := Session.announced_of_reply? hreply
  have hlanguage : s.language = language := Session.language_run _ _
  rw [hlanguage] at hannounced
  exact ⟨hvisible, hlast, hannounced,
    fun programs speaker havailable =>
      (Speech.Speaker.actsOn_iff havailable programs said language).2 hvisible⟩

theorem something_is_always_said_overflow :
    ∃ (s : Session) (speaker : Speech.Speaker),
      s = ((Session.start ⟨.english, false, true⟩).run [.enter "-1e308", .act .addToMemory,
        .act .addToMemory]).1 ∧
      speaker =
        ((Speech.Speaker.start "say" Settings.defaultRate).announce ["say"] "added to memory"
          .english).1 ∧
      s.reply? (.act .recallMemory) = some "negative infinity" ∧ speaker.unavailable = false ∧
      announcements (s.step (.act .recallMemory)).2 = [("negative infinity", .english)] ∧
      (speaker.announce ["say"] "negative infinity" .english).1.started =
        [.begin ["-v", "en", "-s", "166", "--", "negative infinity"],
          ⟨["-v", "en", "-s", "166", "--", "added to memory"], .killed, true⟩] ∧
      ¬ IsBlank (Lexicon.english.read " - ") := by
  obtain ⟨hread, -, hsession⟩ := something_is_always_said .english
  have hreply : ((Session.start ⟨.english, false, true⟩).run
      [.enter "-1e308", .act .addToMemory,
        .act .addToMemory]).1.reply? (.act .recallMemory) = some "negative infinity" := by
    decide +kernel
  have havailable :
      ((Speech.Speaker.start "say" Settings.defaultRate).announce ["say"] "added to memory"
      .english).1.unavailable = false := by decide +kernel
  obtain ⟨-, -, hannounced, hspeaker⟩ := hsession _ _ _ _ _ hreply
  have hstarted := hspeaker ["say"] _ havailable
  rw [Speech.Speaker.ActsOn, if_pos (by decide +kernel)] at hstarted
  exact ⟨_, _, rfl, rfl, hreply, havailable, hannounced.trans (if_pos (by decide +kernel)),
    hstarted.trans (by decide +kernel), hread _ (by decide)⟩

end TalkingCalculator
