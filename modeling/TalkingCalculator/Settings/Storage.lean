import TalkingCalculator.Files.Basic
import TalkingCalculator.Settings.Text

/-!
# The settings file

Settings are saved to a file and loaded from it. Loading from a path that leads to nothing saves the
default settings there, and loading from any other path changes nothing.
-/

namespace TalkingCalculator

/-- Why settings cannot be saved or loaded. -/
inductive StorageFault where
  /-- A file or directory cannot be read or written. -/
  | access (path : Path) (cause : FileFault)
  /-- The file does not hold settings. -/
  | format (path : Path)
  /-- The path of the font is not a text. -/
  | fontName
deriving DecidableEq, Repr

def StorageFault.message : StorageFault → String
  | access path cause => s!"lecture/écriture de {path.text}: {cause.message}"
  | format path => s!"config invalide dans {path.text}"
  | fontName => "sérialisation de la config: path contains invalid UTF-8 characters"

namespace Settings

/-- Saves settings to a file, in a directory that is made if it is missing. -/
def save (s : Settings) (path : Path) (files : Files) (refusals : Refusals := {}) :
    Files × Except StorageFault Unit :=
  match Files.makeDirectory path.parent files refusals with
  | (made, .error cause) => (made, .error (.access path cause))
  | (made, .ok ()) =>
    match s.text? with
    | none => (made, .error .fontName)
    | some text =>
      match Files.write text.toUTF8 path made refusals with
      | (written, .error cause) => (written, .error (.access path cause))
      | (written, .ok ()) => (written, .ok ())

def read (path : Path) (files : Files) (refusals : Refusals := {}) : Except StorageFault Settings :=
  match Files.readText path files refusals with
  | .error cause => .error (.access path cause)
  | .ok text =>
    match ofText? text with
    | none => .error (.format path)
    | some s => .ok s

/-- Loads settings. Where the path leads to nothing, the default settings are saved first. -/
def load (path : Path) (files : Files) (refusals : Refusals := {}) :
    Files × Except StorageFault Settings :=
  match Files.find? path files refusals with
  | some _ => (files, read path files refusals)
  | none =>
    match default.save path files refusals with
    | (saved, .ok ()) => (saved, .ok default)
    | (saved, .error fault) => (saved, .error fault)

end Settings

end TalkingCalculator
