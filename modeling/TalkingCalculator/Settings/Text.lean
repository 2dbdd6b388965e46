import TalkingCalculator.Settings.Basic
import TalkingCalculator.Toml.Document

/-!
# Settings as text

The settings are kept as a TOML document with one line for each. In reading, a setting that is
absent has its default value, unknown entries are passed over, and a setting of the wrong type
refuses the document.
-/

namespace TalkingCalculator.Settings

/-- Whether a value is an array or a table with nothing in it. -/
def isVoid : Toml.Value → Bool
  | .array items => items.isEmpty
  | .tables items => items.isEmpty
  | .table _ entries => entries.isEmpty
  | _ => false

/-- The language that a value names: a text with its code, or a table whose only key is its code and
whose value is void. -/
def languageOf? : Toml.Value → Option Language
  | .text s => Language.ofCode? s
  | .table _ [(key, value)] => if isVoid value then Language.ofCode? key else none
  | _ => none

/-- The truth value that a value is. -/
def booleanOf? : Toml.Value → Option Bool
  | .boolean b => some b
  | _ => none

/-- The 32-bit number nearest to a number. -/
def rateOf? : Toml.Value → Option Float32
  | .float x => some (Single.narrow x)
  | .integer n => some (Single.ofInt n)
  | _ => none

/-- The text that a value is. -/
def textOf? : Toml.Value → Option String
  | .text s => some s
  | _ => none

/-- The setting with the given key, or its default value if the key is absent. -/
def entry {α : Type} (entries : Toml.Entries) (key : String) (of? : Toml.Value → Option α)
    (default : α) : Option α :=
  match entries.lookup key with
  | none => some default
  | some value => of? value

def ofEntries? (entries : Toml.Entries) : Option Settings := do
  let language ← entry entries "langue" languageOf? default.language
  let degrees ← entry entries "mode_degres" booleanOf? default.degrees
  let voiceActive ← entry entries "voix_active" booleanOf? default.voiceActive
  let rate ← entry entries "debit_voix" rateOf? default.rate
  let speechCommand ← entry entries "commande_voix" textOf? default.speechCommand
  let font ← entry entries "police"
    (fun v => (textOf? v).map fun path => some path.toUTF8) default.font
  return ⟨language, degrees, voiceActive, rate, speechCommand, font⟩

def ofText? (s : String) : Option Settings := do
  let entries ← Toml.readDocument s
  ofEntries? entries

/-- A line that sets one setting. -/
def line (key : String) (value : List Char) : List Char :=
  key.toList ++ " = ".toList ++ value ++ ['\n']

def booleanText (b : Bool) : List Char :=
  (if b then "true" else "false").toList

/-- The lines of settings, given the line of the font. -/
def lines (s : Settings) (fontLine : List Char) : String :=
  String.ofList
    (line "langue" (Toml.writeText s.language.code) ++
      line "mode_degres" (booleanText s.degrees) ++
      line "voix_active" (booleanText s.voiceActive) ++
      line "debit_voix" (Toml.writeFloat (Single.widen s.rate)) ++
      line "commande_voix" (Toml.writeText s.speechCommand) ++
      fontLine)

/-- Writes settings, if the path of the font is a text. -/
def text? (s : Settings) : Option String :=
  match s.font with
  | none => some (s.lines [])
  | some path =>
    (String.fromUTF8? path).map fun path => s.lines (line "police" (Toml.writeText path))

end TalkingCalculator.Settings
