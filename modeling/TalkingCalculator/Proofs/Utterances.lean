import TalkingCalculator.Speech.Speaker

namespace TalkingCalculator.Speech

/-- What happens to a speaker. An announcement finds the programs that can be started at its
time. -/
inductive Occurrence where
  | announced (programs : List String) (text : String) (language : Language)
  | awaited
  /-- The program at a place had the time to end by itself. -/
  | ended (place : Nat)

namespace Occurrence

/-- The text that is to be spoken. Blank texts are not. -/
def spoken? : Occurrence → Option (String × Language)
  | announced _ text language => if Text.IsBlank text then none else some (text, language)
  | _ => none

/-- Whether a program would have to be started and cannot be. -/
def fails (command : String) (rate : Float32) : Occurrence → Bool
  | announced programs text language =>
    !decide (Text.IsBlank text) && !Speaker.canStart programs command (arguments rate text language)
  | _ => false

/-- The texts that programs are started for: those to be spoken before the first failure. -/
def launches (command : String) (rate : Float32) (occurrences : List Occurrence) :
    List (String × Language) :=
  (occurrences.takeWhile fun o => !o.fails command rate).filterMap spoken?

end Occurrence

/-- Whether a program has stopped and its end has been waited for. -/
def Process.IsOver (p : Process) : Prop :=
  p.waited = true ∧ p.fate ≠ .running

namespace Process

theorem isOver_kill (p : Process) : p.kill.wait.IsOver := by
  refine ⟨rfl, ?_⟩
  simp only [wait, kill]
  split <;> simp_all

theorem isOver_finish (p : Process) : p.finish.wait.IsOver := by
  refine ⟨rfl, ?_⟩
  simp only [wait, finish]
  split <;> simp_all

theorem IsOver.finish {p : Process} (h : p.IsOver) : p.finish = p := by
  rw [Process.finish, if_neg h.2]

end Process

namespace Speaker

variable {s : Speaker}

def afterOne (s : Speaker) : Occurrence → Speaker
  | .announced programs text language => (s.announce programs text language).1
  | .awaited => s.wait
  | .ended place => s.afterEnd place

def after (s : Speaker) (occurrences : List Occurrence) : Speaker :=
  occurrences.foldl afterOne s

/-- The programs that were started, without the one in hand. -/
def past (s : Speaker) : List Process :=
  s.started.drop (if s.holding then 1 else 0)

/-- Whether all programs but the one in hand are over. -/
def IsOrderly (s : Speaker) : Prop :=
  ∀ p ∈ s.past, p.IsOver

/-- What the programs that were started received, in the order of their starts. -/
def received (s : Speaker) : List (List String) :=
  (s.started.map Process.arguments).reverse

/-- What an announcement does: nothing, or it cuts what is being said and then starts a program or
fails to. -/
theorem announce_cases (s : Speaker) (programs : List String) (text : String)
    (language : Language) :
    (s.unavailable = true ∨ Text.IsBlank text) ∧ (s.announce programs text language).1 = s ∨
      s.unavailable = false ∧ ¬ Text.IsBlank text ∧
        (canStart programs s.command (arguments s.rate text language) = true ∧
            (s.announce programs text language).1 =
              { s.cut with
                started := .begin (arguments s.rate text language) :: s.cut.started
                holding := true } ∨
          ¬ canStart programs s.command (arguments s.rate text language) = true ∧
            (s.announce programs text language).1 = { s.cut with unavailable := true }) := by
  by_cases hsilent : s.unavailable = true ∨ Text.IsBlank text
  · exact .inl ⟨hsilent, by rw [announce, if_pos hsilent]⟩
  · obtain ⟨havailable, hvisible⟩ := not_or.1 hsilent
    refine .inr ⟨Bool.eq_false_iff.2 havailable, hvisible, ?_⟩
    rw [announce, if_neg hsilent]
    by_cases hstart : canStart programs s.command (arguments s.rate text language) = true
    · exact .inl ⟨hstart, by simp only [hstart, if_true]⟩
    · exact .inr ⟨hstart, by simp only [hstart, if_false, Bool.false_eq_true]⟩

theorem release_fields (s : Speaker) (change : Process → Process) :
    (s.release change).command = s.command ∧ (s.release change).rate = s.rate ∧
      (s.release change).unavailable = s.unavailable ∧ (s.release change).holding = false := by
  rw [release]
  split
  · exact ⟨rfl, rfl, rfl, rfl⟩
  · next h => exact ⟨rfl, rfl, rfl, Bool.eq_false_iff.2 h⟩

theorem received_release (s : Speaker) {change : Process → Process}
    (h : ∀ p, (change p).arguments = p.arguments) :
    (s.release change).received = s.received := by
  rw [release]
  split
  · rw [received, received]
    cases s.started with
    | nil => rfl
    | cons p ps => simp [h]
  · rfl

theorem received_cut (s : Speaker) : s.cut.received = s.received :=
  s.received_release fun _ => rfl

theorem received_afterEnd (s : Speaker) (place : Nat) :
    (s.afterEnd place).received = s.received := by
  have hmap : (s.started.modify place Process.finish).map Process.arguments =
      s.started.map Process.arguments := by
    induction s.started generalizing place with
    | nil => simp
    | cons p ps ih => cases place <;> simp [ih, Process.finish]
  exact congrArg List.reverse hmap

theorem afterOne_fields (s : Speaker) (o : Occurrence) :
    (s.afterOne o).command = s.command ∧ (s.afterOne o).rate = s.rate ∧
      (s.afterOne o).unavailable = (s.unavailable || o.fails s.command s.rate) ∧
      (s.afterOne o).received = s.received ++
        if s.unavailable || o.fails s.command s.rate then []
        else o.spoken?.toList.map fun spoken => arguments s.rate spoken.1 spoken.2 := by
  cases o with
  | announced programs text language =>
      obtain ⟨hcommand, hrate, hunavailable, -⟩ := s.release_fields fun p => p.kill.wait
      rw [afterOne]
      rcases s.announce_cases programs text language with
        ⟨hsilent, hnext⟩ | ⟨havailable, hvisible, ⟨hstart, hnext⟩ | ⟨hstart, hnext⟩⟩
      · rw [hnext]
        rcases hsilent with h | h <;> simp [h, Occurrence.fails, Occurrence.spoken?]
      · rw [hnext]
        refine ⟨hcommand, hrate, by simp [cut, hunavailable, Occurrence.fails, hstart], ?_⟩
        have hreceived : Speaker.received { s.cut with
            started := .begin (arguments s.rate text language) :: s.cut.started, holding := true } =
            s.received ++ [arguments s.rate text language] := by
          rw [← s.received_cut]
          exact List.reverse_cons
        rw [hreceived]
        simp [havailable, Occurrence.fails, Occurrence.spoken?, hvisible, hstart]
      · rw [hnext]
        refine ⟨hcommand, hrate, by simp [Occurrence.fails, hvisible, hstart], ?_⟩
        have hreceived : Speaker.received { s.cut with unavailable := true } = s.received :=
          s.received_cut
        rw [hreceived]
        simp [Occurrence.fails, hvisible, hstart]
  | awaited =>
      obtain ⟨hcommand, hrate, hunavailable, -⟩ := s.release_fields fun p => p.finish.wait
      refine ⟨hcommand, hrate, hunavailable.trans (Bool.or_false _).symm, ?_⟩
      have hreceived : (s.afterOne .awaited).received = s.received :=
        s.received_release fun _ => rfl
      simpa [Occurrence.spoken?] using hreceived
  | ended place =>
      refine ⟨rfl, rfl, (Bool.or_false _).symm, ?_⟩
      have hreceived : (s.afterOne (.ended place)).received = s.received :=
        s.received_afterEnd place
      simpa [Occurrence.spoken?] using hreceived

theorem after_fields (s : Speaker) (occurrences : List Occurrence) :
    (s.after occurrences).unavailable =
      (s.unavailable || occurrences.any fun o => o.fails s.command s.rate) ∧
      (s.after occurrences).received = s.received ++
        if s.unavailable then []
        else (Occurrence.launches s.command s.rate occurrences).map fun spoken =>
          arguments s.rate spoken.1 spoken.2 := by
  induction occurrences generalizing s with
  | nil => simp [after, Occurrence.launches]
  | cons o occurrences ih =>
      obtain ⟨hcommand, hrate, hunavailable, hreceived⟩ := s.afterOne_fields o
      have hafter : s.after (o :: occurrences) = (s.afterOne o).after occurrences := rfl
      obtain ⟨ihunavailable, ihreceived⟩ := ih (s.afterOne o)
      rw [hcommand, hrate, hunavailable] at ihunavailable ihreceived
      rw [hreceived] at ihreceived
      rw [hafter, ihunavailable, ihreceived, List.any_cons, Bool.or_assoc, List.append_assoc]
      refine ⟨rfl, congrArg _ ?_⟩
      cases hsilent : s.unavailable with
      | true => rfl
      | false =>
          cases hfails : o.fails s.command s.rate with
          | true => simp [Occurrence.launches, hfails]
          | false => cases hspoken : o.spoken? <;> simp [Occurrence.launches, hfails, hspoken]

theorem IsOrderly.release (h : s.IsOrderly) {change : Process → Process}
    (hchange : ∀ p, (change p).IsOver) :
    ∀ p ∈ (s.release change).started, p.IsOver := by
  rw [IsOrderly, past] at h
  rw [Speaker.release]
  split
  · next hholding =>
      rw [hholding] at h
      cases hstarted : s.started with
      | nil => simp
      | cons p ps =>
          rw [hstarted] at h
          exact List.forall_mem_cons.2 ⟨hchange p, h⟩
  · next hholding =>
      rw [if_neg hholding] at h
      exact h

theorem IsOrderly.past_afterEnd (h : s.IsOrderly) (place : Nat) :
    (s.afterEnd place).past = s.past := by
  -- A program that is over does not end again.
  have hover : ∀ (ps : List Process) (i : Nat), (∀ p ∈ ps, p.IsOver) →
      ps.modify i Process.finish = ps := by
    intro ps i hps
    induction ps generalizing i with
    | nil => simp
    | cons p ps ih =>
        obtain ⟨hp, hps⟩ := List.forall_mem_cons.1 hps
        cases i with
        | zero => simp [hp.finish]
        | succ i => simp [ih i hps]
  change (s.started.modify place Process.finish).drop (if s.holding then 1 else 0) = _
  rcases Nat.lt_or_ge place (if s.holding then 1 else 0) with hplace | hplace
  · exact List.drop_modify_of_lt _ _ _ _ hplace
  · rw [List.drop_modify_of_ge _ _ _ _ hplace]
    exact hover _ _ h

theorem IsOrderly.afterOne (h : s.IsOrderly) (o : Occurrence) : (s.afterOne o).IsOrderly := by
  cases o with
  | announced programs text language =>
      have hcut : ∀ p ∈ s.cut.started, p.IsOver := h.release Process.isOver_kill
      rw [Speaker.afterOne]
      rcases s.announce_cases programs text language with
        ⟨-, hnext⟩ | ⟨-, -, ⟨-, hnext⟩ | ⟨-, hnext⟩⟩
      · rwa [hnext]
      · rw [hnext]
        exact hcut
      · rw [hnext]
        intro p hp
        exact hcut p (List.mem_of_mem_drop hp)
  | awaited =>
      intro p hp
      exact h.release Process.isOver_finish p (List.mem_of_mem_drop hp)
  | ended place =>
      intro p hp
      rw [Speaker.afterOne, h.past_afterEnd] at hp
      exact h p hp

theorem IsOrderly.after (h : s.IsOrderly) (occurrences : List Occurrence) :
    (s.after occurrences).IsOrderly := by
  induction occurrences generalizing s with
  | nil => exact h
  | cons o occurrences ih => exact ih (h.afterOne o)

theorem isOrderly_start (command : String) (rate : Float32) : (start command rate).IsOrderly := by
  intro p hp
  cases hp

theorem IsOrderly.countP_running_le (h : s.IsOrderly) :
    s.started.countP (fun p => p.fate = .running) ≤ 1 := by
  have hpast : s.past.countP (fun p => p.fate = .running) = 0 :=
    List.countP_eq_zero.2 fun p hp => by simpa using (h p hp).2
  have hhand : (s.started.take (if s.holding then 1 else 0)).length ≤ 1 := by
    rw [List.length_take]
    split <;> omega
  rw [← List.take_append_drop (if s.holding then 1 else 0) s.started, List.countP_append]
  change _ + s.past.countP _ ≤ 1
  rw [hpast]
  exact Nat.le_trans List.countP_le_length hhand

end Speaker

/-- Whatever happens to a speaker, at most one of its programs still runs, and the end of each
program but the one in hand has been waited for. A blank text, or any text after a program could not
be started, changes nothing. The programs received the texts that they were started for, each as an
argument of its own. -/
theorem one_utterance_at_a_time (command : String) (rate : Float32)
    (occurrences : List Occurrence) :
    let s := (Speaker.start command rate).after occurrences
    let usedRate := Speaker.effectiveRate rate
    s.started.countP (fun p => p.fate = .running) ≤ 1 ∧
      (∀ p ∈ s.past, p.waited = true ∧ p.fate ≠ .running) ∧
      (∀ programs text language,
        Text.IsBlank text ∨ (∃ o ∈ occurrences, o.fails command usedRate = true) →
          (s.announce programs text language).1 = s) ∧
      (s.started.map Process.arguments).reverse =
        (Occurrence.launches command usedRate occurrences).map fun spoken =>
          ["-v", spoken.2.code, "-s", String.ofList (digits (wordsPerMinute usedRate)), "--",
            spoken.1] := by
  intro s usedRate
  have horderly : s.IsOrderly := (Speaker.isOrderly_start command rate).after occurrences
  obtain ⟨hunavailable, hreceived⟩ := (Speaker.start command rate).after_fields occurrences
  refine ⟨horderly.countP_running_le, horderly, ?_, hreceived⟩
  intro programs text language h
  have hsilent : s.unavailable = true ∨ Text.IsBlank text := by
    rcases h with hblank | ⟨o, ho, hfails⟩
    · exact .inr hblank
    · refine .inl (hunavailable.trans ?_)
      exact List.any_eq_true.2 ⟨o, ho, hfails⟩
  rw [Speaker.announce, if_pos hsilent]

theorem one_utterance_at_a_time_silenced :
    ∃ occurrences, occurrences =
      [Occurrence.announced ["say"] "one" .english, .announced ["say"] "-2" .english, .ended 0,
        .announced ["say"] " " .english, .announced ["say"] "سه" .persian,
        .announced [] "four" .english] ∧
      (Occurrence.announced [] "four" .english).fails "say"
        (Speaker.effectiveRate Settings.defaultRate) = true ∧
      (((Speaker.start "say" Settings.defaultRate).after occurrences).announce ["say"] "five"
        .english).1 =
        (Speaker.start "say" Settings.defaultRate).after occurrences ∧
      ((Speaker.start "say" Settings.defaultRate).after occurrences).started =
        [⟨["-v", "fa", "-s", "166", "--", "سه"], .killed, true⟩,
          ⟨["-v", "en", "-s", "166", "--", "-2"], .ended, true⟩,
          ⟨["-v", "en", "-s", "166", "--", "one"], .killed, true⟩] := by
  have hfails : (Occurrence.announced [] "four" .english).fails "say"
      (Speaker.effectiveRate Settings.defaultRate) = true := by
    decide +kernel
  refine ⟨_, rfl, hfails, ?_, by decide +kernel⟩
  exact (one_utterance_at_a_time _ _ _).2.2.1 ["say"] "five" .english (.inr ⟨_, by simp, hfails⟩)

end TalkingCalculator.Speech
