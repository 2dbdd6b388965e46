import TalkingCalculator.Journal.Basic
import TalkingCalculator.Settings.Basic
import TalkingCalculator.Speech.Program
import TalkingCalculator.Text.Blank

/-!
# Speakers

A speaker starts a program for each announcement and cuts the one before it, if that is still
running. When a program cannot be started the speaker stays silent from then on.
-/

namespace TalkingCalculator.Speech

structure Speaker where
  command : String
  rate : Float32
  /-- The programs that were started, the last one first. -/
  started : List Process
  /-- Whether the last program is still in hand. -/
  holding : Bool
  /-- Whether a program could not be started. -/
  unavailable : Bool
deriving DecidableEq

namespace Speaker

/-- A rate that is positive, where another has the default value. -/
def effectiveRate (rate : Float32) : Float32 :=
  if Single.isNegative rate ∨ Single.magnitude rate = 0 ∨
    Binary.single.infinity < Single.magnitude rate then
    Settings.defaultRate
  else rate

/-- A speaker that has said nothing yet. -/
def start (command : String) (rate : Float32) : Speaker :=
  ⟨command, effectiveRate rate, [], false, false⟩

/-- Changes the last program and lets go of it, if it is still in hand. -/
def release (s : Speaker) (change : Process → Process) : Speaker :=
  if s.holding then { s with started := s.started.modifyHead change, holding := false } else s

/-- Cuts the announcement in progress. -/
def cut (s : Speaker) : Speaker :=
  s.release fun p => p.kill.wait

/-- Waits until the announcement in progress ends. Its program is assumed to end by itself. -/
def wait (s : Speaker) : Speaker :=
  s.release fun p => p.finish.wait

/-- The speaker after the program at the given place had the time to end by itself. -/
def afterEnd (s : Speaker) (place : Nat) : Speaker :=
  { s with started := s.started.modify place Process.finish }

/-- Whether a program can be started, given those that exist. No argument can hold a null
character. -/
def canStart (programs : List String) (command : String) (arguments : List String) : Bool :=
  programs.contains command && arguments.all fun a => !a.toList.contains (Char.ofNat 0)

/-- Says a text. Nothing is said of a blank one. -/
def announce (programs : List String) (s : Speaker) (text : String) (language : Language) :
    Speaker × List Entry :=
  if s.unavailable ∨ Text.IsBlank text then (s, [])
  else
    let quiet := s.cut
    let arguments := Speech.arguments s.rate text language
    if canStart programs s.command arguments then
      ({ quiet with started := .begin arguments :: quiet.started, holding := true },
        [.announcementStarted])
    else ({ quiet with unavailable := true }, [.speechUnavailable])

def announceAll (programs : List String) (s : Speaker) :
    List (String × Language) → Speaker × List Entry
  | [] => (s, [])
  | (text, language) :: rest =>
    let (next, entries) := s.announce programs text language
    let (last, later) := announceAll programs next rest
    (last, entries ++ later)

/-- The arguments of the programs that ended by themselves, in the order of their starts. -/
def said (s : Speaker) : List (List String) :=
  (s.started.reverse.filter fun p => p.fate = .ended).map Process.arguments

end Speaker

/-- The voice of the window. -/
inductive Voice where
  | silent
  | speaker (s : Speaker)
deriving DecidableEq

namespace Voice

/-- The voice for the command of the settings, silent if it is blank. -/
def ofCommand (command : String) (rate : Float32) : Voice :=
  if Text.IsBlank command then silent else speaker (.start (Text.trimmed command) rate)

def announceAll (programs : List String) (v : Voice) (texts : List (String × Language)) : Voice :=
  match v with
  | silent => silent
  | speaker s => speaker (s.announceAll programs texts).1

/-- The programs that a voice started, the last one first. -/
def started : Voice → List Process
  | silent => []
  | speaker s => s.started

end Voice

end TalkingCalculator.Speech
