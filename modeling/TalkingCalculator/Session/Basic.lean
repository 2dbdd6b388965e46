import TalkingCalculator.Expression.Evaluation
import TalkingCalculator.Words.Reading

/-!
# Sessions

A session holds what a calculation in progress consists of. Its surroundings, the screen and the
voice, learn of changes through effects, which every operation returns in order.
-/

namespace TalkingCalculator

/-- How a session starts. -/
structure Preferences where
  language : Language
  degrees : Bool
  voiceActive : Bool
deriving DecidableEq, Repr

/-- What a session tells its surroundings. -/
inductive Effect where
  | showExpression (text : String)
  | showResult (text : String)
  | announce (text : String) (language : Language)
deriving DecidableEq, Repr

/-- The state of a calculation. -/
structure Session where
  /-- The text of the expression being typed. -/
  buffer : String
  memory : Float
  /-- The value of the last successful evaluation. -/
  lastValue : Option Float
  /-- The trace of the last successful evaluation. -/
  trace : Trace
  /-- The last announcement, whether or not the voice said it. -/
  lastAnnouncement : String
  degrees : Bool
  language : Language
  voiceActive : Bool
deriving DecidableEq

namespace Session

def start (preferences : Preferences) : Session where
  buffer := ""
  memory := Number.zero
  lastValue := none
  trace := Trace.empty
  lastAnnouncement := ""
  degrees := preferences.degrees
  language := preferences.language
  voiceActive := preferences.voiceActive

def lexicon (s : Session) : Lexicon :=
  s.language.lexicon

/-- What evaluating the buffer yields, nothing if it is blank. -/
def outcome (s : Session) : Option (Except Fault Float) :=
  match evaluate s.degrees s.buffer with
  | .error .blank => none
  | result => some result

/-- The expression that the screen shows: the buffer, or a zero in place of an empty one. -/
def expression (s : Session) : String :=
  if s.buffer = "" then "0" else s.buffer

/-- The effect that shows the expression. -/
def shown (s : Session) : Effect :=
  .showExpression s.expression

/-- The effect that says the last announcement, if the voice is active. -/
def spoken (s : Session) : List Effect :=
  if s.voiceActive then [.announce s.lastAnnouncement s.language] else []

/-- The effects of beginning a session. -/
def startEffects : List Effect :=
  [.showExpression "0", .showResult "0"]

end Session

end TalkingCalculator
