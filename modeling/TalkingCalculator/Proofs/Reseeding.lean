import TalkingCalculator.Proofs.LexicalSoundness
import TalkingCalculator.Proofs.NumberText
import TalkingCalculator.Proofs.RoundingFixedPoints
import TalkingCalculator.Proofs.SessionSteps
import TalkingCalculator.Proofs.WrittenExpressions

namespace TalkingCalculator

open Number

def Tree.ofNumber (negative : Bool) (x : Float) : Tree :=
  if negative then negate (number x) else number x

theorem Tree.inDegrees_ofNumber (negative : Bool) (x : Float) :
    (ofNumber negative x).inDegrees = ofNumber negative x := by
  cases negative <;> rfl

theorem Tree.height_ofNumber_le (negative : Bool) (x : Float) :
    (ofNumber negative x).height ≤ maxHeight := by
  cases negative <;> exact of_decide_eq_true rfl

theorem Tree.eval_ofNumber (negative : Bool) {code : Nat} (h : code < Binary.double.infinity) :
    (ofNumber negative (ofMagnitude false code)).eval = ofMagnitude negative code := by
  cases negative with
  | false => rfl
  | true => exact neg_ofMagnitude false h

/-- The tokens of a number with a sign. -/
def signedTokens (negative : Bool) (x : Float) : List Token :=
  if negative then [.operator .sub, .number x] else [.number x]

theorem writes_signed (negative : Bool) (n : Numeral) :
    Writes ((if negative then ['-'] else []) ++ n.text)
      ((signedTokens negative n.value).map .token) := by
  have hnumeral : Writes n.text [.token (.number n.value)] := .of_spells (.numeral n)
  cases negative with
  | false => exact hnumeral
  | true => exact hnumeral.operator .sub

theorem parse_of_numeral {s : String} {negative : Bool} {n : Numeral}
    (h : s.toList = (if negative then ['-'] else []) ++ n.text) :
    parse s = .ok (Tree.ofNumber negative n.value) := by
  have hwrites := writes_signed negative n
  rw [← h] at hwrites
  have hnumber : Grammar.Derives Lexeme.token Lexeme.IsOperand .factor [.token (.number n.value)]
      (.number n.value) :=
    .ofAtom (.operand (.token (.number n.value)))
  have ht : Lexeme.IsExpression ((signedTokens negative n.value).map .token)
      (Tree.ofNumber negative n.value) := by
    cases negative with
    | false => exact .ofProduct (.ofFactor hnumber)
    | true => exact .ofProduct (.ofFactor (.minus hnumber))
  rw [parse_of_writes (by rwa [replaceGlyphs_of_isVisible hwrites.isVisible]) ht]
  exact if_pos (Tree.height_ofNumber_le negative n.value)

theorem parse_text {negative : Bool} {code : Nat} (h : code < Binary.double.infinity)
    (hzero : code = 0 → negative = false) :
    parse (text (ofMagnitude negative code)) =
      .ok (Tree.ofNumber negative (ofMagnitude false code)) := by
  obtain ⟨n, htext, hvalue⟩ := exists_numeral_of_text h hzero
  rw [parse_of_numeral htext, hvalue]

theorem exists_code_of_toTwelvePlaces {x : Float} (h : IsFinite x) :
    ∃ negative code, toTwelvePlaces x = ofMagnitude negative code ∧ code < Binary.double.infinity ∧
      (code = 0 → negative = false) := by
  refine ⟨_, _, toTwelvePlaces_of_isFinite h, roundedCode_lt_infinity h, ?_⟩
  intro hzero
  rw [hzero]
  rfl

theorem isFinite_toTwelvePlaces_iff {x : Float} : IsFinite (toTwelvePlaces x) ↔ IsFinite x := by
  constructor
  · intro h
    by_contra hx
    exact hx (by rwa [toTwelvePlaces, if_neg hx] at h)
  · intro h
    obtain ⟨negative, code, hcode, hlt, -⟩ := exists_code_of_toTwelvePlaces h
    rw [hcode]
    exact isFinite_ofMagnitude negative hlt

theorem evaluate_eq (degrees : Bool) (s : String) :
    evaluate degrees s = parse s >>= fun t => (if degrees then t.inDegrees else t).value := by
  simp only [evaluate, calculate, parse, bind_assoc, map_bind]
  refine bind_congr fun prepared => bind_congr fun tokens => bind_congr fun ordered =>
    bind_congr fun tree => ?_
  exact bind_pure _

theorem evaluate_of_parse {s : String} {t : Tree} (degrees : Bool) (h : parse s = .ok t) :
    evaluate degrees s = (if degrees then t.inDegrees else t).value := by
  rw [evaluate_eq, h]
  rfl

theorem evaluate_text_toTwelvePlaces (degrees : Bool) {x : Float} (h : IsFinite x) :
    evaluate degrees (text (toTwelvePlaces x)) = .ok (toTwelvePlaces x) := by
  have hrounded := toTwelvePlaces_toTwelvePlaces x
  obtain ⟨negative, code, hcode, hlt, hzero⟩ := exists_code_of_toTwelvePlaces h
  rw [hcode] at hrounded ⊢
  rw [evaluate_of_parse degrees (parse_text hlt hzero), Tree.inDegrees_ofNumber, ite_self,
    Tree.value, Tree.eval_ofNumber negative hlt, if_pos (isFinite_ofMagnitude negative hlt),
    hrounded]

theorem Tree.exists_of_value {t : Tree} {v : Float} (h : t.value = .ok v) :
    ∃ x, IsFinite x ∧ v = toTwelvePlaces x := by
  rw [Tree.value] at h
  split at h
  · next hfinite => exact ⟨_, hfinite, (Except.ok.inj h).symm⟩
  · cases h

theorem exists_of_evaluate {degrees : Bool} {s : String} {v : Float}
    (h : evaluate degrees s = .ok v) :
    ∃ x, IsFinite x ∧ v = toTwelvePlaces x := by
  rw [evaluate_eq] at h
  obtain ⟨t, -, hvalue⟩ := exists_of_bind_eq_ok h
  exact Tree.exists_of_value hvalue

theorem isFinite_of_evaluate {degrees : Bool} {s : String} {v : Float}
    (h : evaluate degrees s = .ok v) : IsFinite v := by
  obtain ⟨x, hx, rfl⟩ := exists_of_evaluate h
  exact isFinite_toTwelvePlaces_iff.2 hx

theorem evaluate_text {degrees : Bool} {s : String} {v : Float} (degrees' : Bool)
    (h : evaluate degrees s = .ok v) :
    evaluate degrees' (text v) = .ok v := by
  obtain ⟨x, hx, rfl⟩ := exists_of_evaluate h
  exact evaluate_text_toTwelvePlaces degrees' hx

namespace Session

variable {s : Session} {v : Float}

theorem outcome_eq_ok_iff : s.outcome = some (.ok v) ↔ evaluate s.degrees s.buffer = .ok v := by
  rw [outcome]
  split
  · next h =>
      rw [h]
      simp
  · exact Option.some_inj

theorem outcome_of_failure {cause : Failure}
    (h : evaluate s.degrees s.buffer = .error (.failure cause)) :
    s.outcome = some (.error (.failure cause)) := by
  rw [outcome, h]

theorem exists_calculate_of_outcome (h : s.outcome = some (.ok v)) :
    ∃ trace, calculate s.degrees s.buffer = .ok (v, trace) := by
  obtain ⟨⟨value, trace⟩, hcalculate, rfl⟩ := exists_of_map_eq_ok (outcome_eq_ok_iff.1 h)
  exact ⟨trace, hcalculate⟩

/-- What an evaluation with a value leaves. -/
theorem equals_of_outcome (h : s.outcome = some (.ok v)) :
    s.equals.1.buffer = text v ∧ s.equals.1.lastValue = some v ∧ s.equals.1.memory = s.memory ∧
      s.equals.1.degrees = s.degrees ∧
      ∀ screen : Screen, screen.after s.equals.2 = ⟨s.equals.1.expression, text v⟩ := by
  obtain ⟨trace, hcalculate⟩ := exists_calculate_of_outcome h
  rw [equals, hcalculate]
  exact ⟨rfl, rfl, rfl, rfl, after_result_spoken_shown _ _ _⟩

end Session

/-- The text of a value is evaluated to the same value, in whatever unit of angles. An evaluation in
a session leaves this text to go on from, so a second one changes nothing that is typed, stored or
shown. -/
theorem reseeding_is_stable :
    (∀ (degrees degrees' : Bool) (s : String) (v : Float),
      evaluate degrees s = .ok v → evaluate degrees' (text v) = .ok v) ∧
    ∀ (s : Session) (screen : Screen) (v : Float), s.outcome = some (.ok v) →
      s.equals.1.buffer = text v ∧ s.equals.1.lastValue = some v ∧
      s.equals.1.outcome = some (.ok v) ∧ s.equals.1.equals.1.lastValue = some v ∧
      s.equals.1.equals.1.buffer = s.equals.1.buffer ∧
      s.equals.1.equals.1.memory = s.equals.1.memory ∧
      (screen.after s.equals.2).after s.equals.1.equals.2 = screen.after s.equals.2 := by
  refine ⟨fun degrees degrees' s v h => evaluate_text degrees' h, fun s screen v h => ?_⟩
  obtain ⟨hbuffer, hvalue, hmemory, hdegrees, hscreen⟩ := Session.equals_of_outcome h
  have hagain : s.equals.1.outcome = some (.ok v) := by
    rw [Session.outcome_eq_ok_iff, hbuffer]
    exact evaluate_text _ (Session.outcome_eq_ok_iff.1 h)
  obtain ⟨hbuffer', hvalue', hmemory', -, hscreen'⟩ := Session.equals_of_outcome hagain
  refine ⟨hbuffer, hvalue, hagain, hvalue', by rw [hbuffer', hbuffer], hmemory', ?_⟩
  rw [hscreen', hscreen, Session.expression, Session.expression, hbuffer', hbuffer]

theorem reseeding_is_stable_scientific :
    ∃ v s, text v = "-3e+22" ∧ evaluate false "-3*1e22" = .ok v ∧ evaluate true "-3e+22" = .ok v ∧
      s = ((Session.start ⟨.english, false, true⟩).enter "-3*1e22").1 ∧ s.outcome = some (.ok v) ∧
      s.equals.1.buffer = "-3e+22" ∧ s.equals.1.outcome = some (.ok v) ∧
      (Screen.initial.after s.equals.2).after s.equals.1.equals.2 =
        Screen.initial.after s.equals.2 := by
  have htext : text (ofMagnitude true (Binary.double.nearest (3 * 10 ^ 22) 1)) = "-3e+22" := by
    decide +kernel
  have hvalue : evaluate false "-3*1e22" =
      .ok (ofMagnitude true (Binary.double.nearest (3 * 10 ^ 22) 1)) := by
    decide +kernel
  have houtcome : ((Session.start ⟨.english, false, true⟩).enter "-3*1e22").1.outcome =
      some (.ok _) :=
    Session.outcome_eq_ok_iff.2 hvalue
  have hagain := reseeding_is_stable.1 false true _ _ hvalue
  obtain ⟨hbuffer, -, houtcome', -, -, -, hscreen⟩ :=
    reseeding_is_stable.2 _ Screen.initial _ houtcome
  rw [htext] at hagain hbuffer
  exact ⟨_, _, htext, hvalue, hagain, rfl, houtcome, hbuffer, houtcome', hscreen⟩

end TalkingCalculator
