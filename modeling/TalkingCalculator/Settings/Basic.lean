import TalkingCalculator.Number.Single
import TalkingCalculator.Session.Basic

namespace TalkingCalculator

structure Settings where
  language : Language
  degrees : Bool
  voiceActive : Bool
  /-- How fast the voice speaks, as a multiple of its usual rate. -/
  rate : Float32
  /-- The program that speaks. -/
  speechCommand : String
  /-- The path of the font file of the window, as the bytes of its name. Without it a font of the
  system is used. -/
  font : Option ByteArray

namespace Settings

/-- The rate of the voice unless it is set, the number nearest to 0.95. -/
def defaultRate : Float32 :=
  Single.ofDecimal false ⟨95, -2⟩

/-- The settings unless they are set. -/
def default : Settings where
  language := .persian
  degrees := false
  voiceActive := true
  rate := defaultRate
  speechCommand := "espeak-ng"
  font := none

/-- How a session with these settings starts. -/
def preferences (s : Settings) : Preferences :=
  ⟨s.language, s.degrees, s.voiceActive⟩

end Settings

end TalkingCalculator
