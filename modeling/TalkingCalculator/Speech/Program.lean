import TalkingCalculator.Number.Single
import TalkingCalculator.Words.Language

namespace TalkingCalculator.Speech

/-- The usual rate of the voice in words per minute. -/
def usualRate : Nat := 175

/-- The rate in words per minute, where the product with the usual rate is a 32-bit number before it
is rounded to a whole one, a half going up. Too great a rate becomes the greatest of 32 bits. -/
def wordsPerMinute (rate : Float32) : Nat :=
  let product :=
    Binary.single.nearest (usualRate * Binary.single.units (Single.magnitude rate))
      Binary.single.scale
  min (UInt32.size - 1) (roundHalfUp (Binary.single.units product) Binary.single.scale)

/-- The arguments that a speech program is started with. The text follows a mark, so that it is not
taken for an option when it begins with a minus. -/
def arguments (rate : Float32) (text : String) (language : Language) : List String :=
  ["-v", language.code, "-s", String.ofList (digits (wordsPerMinute rate)), "--", text]

/-- How a started program fares. -/
inductive Fate where
  | running
  /-- It ended by itself. -/
  | ended
  | killed
deriving DecidableEq, Repr

structure Process where
  arguments : List String
  fate : Fate
  /-- Whether its end has been waited for. -/
  waited : Bool
deriving DecidableEq, Repr

namespace Process

/-- The program just after its start. -/
def begin (arguments : List String) : Process :=
  ⟨arguments, .running, false⟩

/-- The program after it had the time to end. -/
def finish (p : Process) : Process :=
  { p with fate := if p.fate = .running then .ended else p.fate }

/-- The program after it was killed, if it was still running. -/
def kill (p : Process) : Process :=
  { p with fate := if p.fate = .running then .killed else p.fate }

/-- The program after its end was waited for. -/
def wait (p : Process) : Process :=
  { p with waited := true }

end Process

end TalkingCalculator.Speech
