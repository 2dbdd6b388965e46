import TalkingCalculator.Session.Command
import TalkingCalculator.Session.Screen
import TalkingCalculator.Speech.Speaker

namespace TalkingCalculator

/-- What a calculation without a window leaves. -/
structure Calculation where
  output : String
  errors : String
  succeeded : Bool
  speaker : Speech.Speaker
  journal : List Entry

namespace Calculation

/-- The exit code. -/
def code (c : Calculation) : Nat :=
  if c.succeeded then 0 else 1

/-- What evaluating an expression leaves in the journal. -/
def evaluationEntries (degrees : Bool) (s : String) : List Entry :=
  (match Input.prepare s with
    | .ok _ => [.inputPrepared]
    | .error _ => []) ++
  match calculate degrees s with
  | .ok _ => [.evaluated, .evaluationSucceeded]
  | .error .blank => []
  | .error _ => [.evaluationRefused]

/-- A text as a line of its own. -/
def line (s : String) : String :=
  s ++ "\n"

/-- The message to the user about an outcome. -/
def errorText : Option (Except Fault Float) → String
  | none => line "expression vide"
  | some (.error fault) => line fault.message
  | some (.ok _) => ""

/-- Calculates an expression with the given settings. Of the surroundings it matters which programs
can be started, and whether their ends can be waited for. A program that is started is assumed to
end by itself. -/
def run (programs : List String) (waitable : Bool) (s : Settings) (expression : String) :
    Calculation :=
  let entered := ((Session.start s.preferences).enter expression).1
  let (last, effects) := entered.equals
  let result := (Screen.initial.after effects).result
  let (speaker, speech) :=
    (Speech.Speaker.start s.speechCommand s.rate).announceAll programs (announcements effects)
  { output := line result ++ (if last.lastAnnouncement = "" then "" else line last.lastAnnouncement)
    errors := errorText entered.outcome
    succeeded := entered.outcome.any fun outcome => outcome.toOption.isSome
    speaker := speaker.wait
    journal :=
      evaluationEntries s.degrees expression ++ speech ++
        (if speaker.holding && !waitable then [.waitFailed] else []) }

end Calculation

end TalkingCalculator
