import TalkingCalculator.Session.Screen
import TalkingCalculator.Window.Widget

/-!
# The window

A window holds a session, its screen and a panel that can be opened. The events of a frame act on it
in two groups: first those of the keyboard, in their order, and then the clicks, in screen order and
once for each widget, whose command depends on the state that the events before it left.
-/

namespace TalkingCalculator

inductive Event where
  | text (typed : String)
  | key (key : SpecialKey)
  | click (label : String)
deriving DecidableEq, Repr

structure Window where
  session : Session
  screen : Screen
  /-- Whether the panel with the trace is open. -/
  panelOpen : Bool
deriving DecidableEq

namespace Window

def start (preferences : Preferences) : Window where
  session := .start preferences
  screen := Screen.initial.after Session.startEffects
  panelOpen := false

/-- Obeys commands. The effects reach the screen and are returned. -/
def run (w : Window) (commands : List Command) : Window × List Effect :=
  let (session, effects) := w.session.run commands
  ({ w with session := session, screen := w.screen.after effects }, effects)

/-- The commands of an event of the keyboard. -/
def keyboardCommands : Event → List Command
  | .text text => typed text
  | .key key => [.act key.action]
  | .click _ => []

def click (w : Window) : Widget → Window × List Effect
  | .voiceBox => w.run [voiceCommand (!w.session.voiceActive)]
  | .degreesBox => w.run [.toggleDegrees]
  | .key text => w.run [.press text]
  | .action action => w.run [.act action]
  | .tracePanel => ({ w with panelOpen := !w.panelOpen }, [])

def clickAll (w : Window) : List Widget → Window × List Effect
  | [] => (w, [])
  | widget :: widgets =>
    let (next, effects) := w.click widget
    let (last, later) := next.clickAll widgets
    (last, effects ++ later)

/-- The events of one frame. -/
def frame (w : Window) (events : List Event) : Window × List Effect :=
  let (next, effects) := w.run (events.flatMap keyboardCommands)
  let (last, later) :=
    next.clickAll (Widget.all.filter fun widget => events.contains (.click widget.label))
  (last, effects ++ later)

end Window

end TalkingCalculator
