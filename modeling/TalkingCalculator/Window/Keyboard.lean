import TalkingCalculator.Session.Command

namespace TalkingCalculator

/-- The characters that the keyboard types. -/
def typeable : List Char :=
  "0123456789.+-*/()%".toList

/-- The commands of typed text. -/
def typed (text : String) : List Command :=
  (text.toList.filter typeable.contains).map fun c => .press (String.singleton c)

/-- The keys that perform actions. -/
inductive SpecialKey where
  | enter
  | backspace
  | escape
deriving DecidableEq, Repr

namespace SpecialKey

def action : SpecialKey → Action
  | enter => .equals
  | backspace => .erase
  | escape => .clear

end SpecialKey

/-- The command of the box that switches the voice. -/
def voiceCommand (active : Bool) : Command :=
  if active then .enableVoice else .muteVoice

end TalkingCalculator
