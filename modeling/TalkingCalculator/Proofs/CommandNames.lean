import TalkingCalculator.Proofs.Utterances

namespace TalkingCalculator.Speech

namespace Speaker

variable {s : Speaker} {programs : List String}

/-- The announcements of texts, when the same programs can always be started. -/
def announcements (programs : List String) (texts : List (String × Language)) : List Occurrence :=
  texts.map fun spoken => .announced programs spoken.1 spoken.2

end Speaker

namespace Voice

variable {command : String}

end Voice

end TalkingCalculator.Speech
