import TalkingCalculator.Window.Keyboard

namespace TalkingCalculator

/-- What can be clicked. -/
inductive Widget where
  | voiceBox
  | degreesBox
  /-- A button that types a key. -/
  | key (text : String)
  /-- A button that performs an action. -/
  | action (act : Action)
  /-- The button that opens and closes the panel with the trace. -/
  | tracePanel
deriving DecidableEq, Repr

def Action.label : Action → String
  | clear => "C"
  | erase => "DEL"
  | equals => "="
  | clearMemory => "MC"
  | recallMemory => "MR"
  | addToMemory => "M+"
  | subtractFromMemory => "M-"

namespace Widget

def label : Widget → String
  | voiceBox => "Voix"
  | degreesBox => "Degrés"
  | key text => String.ofList (withoutOpening text.toList)
  | action act => act.label
  | tracePanel => "Démarche"

/-- The buttons in screen order, without the one that opens the panel. -/
def buttons : List Widget :=
  ["sin(", "cos(", "tan(", "sqrt(", "pow(", "log(", "PI", "e", ","].map key ++
    [.clearMemory, .recallMemory, .addToMemory, .subtractFromMemory].map action ++
    [action .clear, key "(", key ")", action .erase] ++
    ["7", "8", "9", "/", "4", "5", "6", "*", "1", "2", "3", "-", "0", ".", "%", "+"].map key ++
    [action .equals]

/-- All widgets in screen order. -/
def all : List Widget :=
  [voiceBox, degreesBox] ++ buttons ++ [tracePanel]

end Widget

end TalkingCalculator
