import TalkingCalculator.Session.Basic
import TalkingCalculator.Session.Buffer

namespace TalkingCalculator

/-- The actions of the keys that do not type. -/
inductive Action where
  | clear
  | erase
  | equals
  | clearMemory
  | recallMemory
  | addToMemory
  | subtractFromMemory
deriving DecidableEq, Repr

/-- What a session can be told to do. -/
inductive Command where
  /-- A key that types is pressed. -/
  | press (key : String)
  /-- The whole expression is entered at once. -/
  | enter (text : String)
  | act (action : Action)
  | enableVoice
  | muteVoice
  | toggleDegrees
deriving DecidableEq, Repr

namespace Session

def announce (s : Session) (text : String) : Session × List Effect :=
  let next := { s with lastAnnouncement := text }
  (next, next.spoken)

/-- Announces a phrase. -/
def notify (s : Session) (notice : Notice) : Session × List Effect :=
  s.announce (s.lexicon.notice notice)

/-- Shows the expression and then makes an announcement. -/
def showAndAnnounce (s : Session) (text : String) : Session × List Effect :=
  let (next, effects) := s.announce text
  (next, s.shown :: effects)

/-- Types a key and names it. -/
def press (s : Session) (key : String) : Session × List Effect :=
  if key = "" then (s, [])
  else { s with buffer := s.buffer ++ key }.showAndAnnounce (s.lexicon.readPressedKey key)

def enter (s : Session) (text : String) : Session × List Effect :=
  let next := { s with buffer := text }
  (next, [next.shown])

/-- Empties the expression and sets the result to zero. -/
def clear (s : Session) : Session × List Effect :=
  let next := { s with buffer := "" }
  let (last, effects) := next.notify .cleared
  (last, next.shown :: .showResult "0" :: effects)

def erase (s : Session) : Session × List Effect :=
  let kept := String.ofList (Buffer.dropLastKey s.buffer.toList)
  if kept = s.buffer then (s, [])
  else { s with buffer := kept }.showAndAnnounce (s.lexicon.notice .deleted)

/-- Shows and announces that an evaluation failed. -/
def signalError (s : Session) : Session × List Effect :=
  let (next, effects) := s.notify .calculationError
  (next, .showResult s.lexicon.error :: effects)

/-- Evaluates the expression. A value is shown and announced, and the calculation goes on from its
text; a fault empties the expression. -/
def equals (s : Session) : Session × List Effect :=
  match calculate s.degrees s.buffer with
  | .ok (value, trace) =>
    let text := Number.text value
    let valued := { s with trace := trace, lastValue := some value }
    let (said, effects) := valued.announce (s.lexicon.readNumber value)
    let next := { said with buffer := text }
    (next, .showResult text :: effects ++ [next.shown])
  | .error .blank => (s, [])
  | .error _ =>
    let (said, effects) := s.signalError
    let next := { said with buffer := "" }
    (next, effects ++ [next.shown])

def clearMemory (s : Session) : Session × List Effect :=
  { s with memory := Number.zero }.notify .memoryCleared

/-- Recalls the memory into the expression. -/
def recallMemory (s : Session) : Session × List Effect :=
  let text := Number.text s.memory
  { s with buffer := Buffer.recalled s.buffer text }.showAndAnnounce (s.lexicon.read text)

/-- Combines the memory with the value of the expression, or with the last value if the expression
is blank, and announces the notice. -/
def accumulate (s : Session) (combine : Float → Float → Float) (notice : Notice) :
    Session × List Effect :=
  let store (value : Float) : Session × List Effect :=
    { s with memory := Number.toTwelvePlaces (combine s.memory value) }.notify notice
  match evaluate s.degrees s.buffer with
  | .ok value => store value
  | .error .blank =>
    match s.lastValue with
    | some value => store value
    | none => (s, [])
  | .error _ => s.signalError

def act (s : Session) : Action → Session × List Effect
  | .clear => s.clear
  | .erase => s.erase
  | .equals => s.equals
  | .clearMemory => s.clearMemory
  | .recallMemory => s.recallMemory
  | .addToMemory => s.accumulate Float.add .memoryAdded
  | .subtractFromMemory => s.accumulate Float.sub .memorySubtracted

/-- Lets the voice speak and says so. -/
def enableVoice (s : Session) : Session × List Effect :=
  { s with voiceActive := true }.notify .voiceEnabled

/-- Silences the voice, without an announcement. -/
def muteVoice (s : Session) : Session × List Effect :=
  ({ s with voiceActive := false }, [])

/-- Changes the unit of angles. -/
def toggleDegrees (s : Session) : Session × List Effect :=
  { s with degrees := !s.degrees }.notify (if s.degrees then .radianMode else .degreeMode)

def step (s : Session) : Command → Session × List Effect
  | .press key => s.press key
  | .enter text => s.enter text
  | .act action => s.act action
  | .enableVoice => s.enableVoice
  | .muteVoice => s.muteVoice
  | .toggleDegrees => s.toggleDegrees

def run (s : Session) : List Command → Session × List Effect
  | [] => (s, [])
  | command :: commands =>
    let (next, effects) := s.step command
    let (last, later) := next.run commands
    (last, effects ++ later)

@[simp] theorem run_nil (s : Session) : s.run [] = (s, []) :=
  rfl

theorem run_cons (s : Session) (command : Command) (commands : List Command) :
    s.run (command :: commands) =
      (((s.step command).1.run commands).1,
        (s.step command).2 ++ ((s.step command).1.run commands).2) :=
  rfl

theorem run_append (s : Session) (first second : List Command) :
    s.run (first ++ second) =
      (((s.run first).1.run second).1, (s.run first).2 ++ ((s.run first).1.run second).2) := by
  induction first generalizing s with
  | nil => rfl
  | cons command commands ih => simp only [List.cons_append, run_cons, ih, List.append_assoc]

end Session

end TalkingCalculator
