import TalkingCalculator.CommandLine.Run

/-!
# The program

The outer layer: it reads the settings file, runs the program on what it finds, prints what the run
leaves and writes the settings file if the run made one. It has no access to other programs, so
nothing is spoken.
-/

namespace TalkingCalculator.Program

/-- The directory in which programs keep their settings. -/
def settingsHome : IO String := do
  match ← IO.getEnv "XDG_CONFIG_HOME" with
  | some home => return home
  | none => return (← IO.getEnv "HOME").getD "" ++ "/.config"

/-- The settings file that the arguments name. -/
def settingsFile (home : String) (arguments : List String) : String :=
  match Options.empty.parse arguments with
  | .run { settingsFile := some file, .. } => file
  | _ => "/".intercalate [home, CommandLine.programName, "config.toml"]

/-- What stands at the place of the settings file. Something that cannot be read counts as a
directory. -/
def nodeAt (file : String) : IO (Option Node) := do
  try
    return some (.file (← IO.FS.readBinFile file))
  catch
    | .noFileOrDirectory .. => return none
    | _ => return some (.directory [])

/-- The tree with nothing but the settings file. -/
def treeOf (path : Path) (node : Option Node) : Files :=
  match node with
  | none => []
  | some (.directory _) => (Files.makeDirectory path []).1
  | some (.file contents) =>
    (Files.write contents path (Files.makeDirectory path.parent []).1).1

/-- Writes a file that a run made, with its directory. -/
def writeMade (file : String) (files : Files) : IO Unit :=
  match Files.find? (Path.ofText file) files with
  | some (.file contents) => do
    IO.FS.createDirAll ("/".intercalate (file.splitOn "/").dropLast)
    IO.FS.writeBinFile file contents
  | _ => return ()

/-- An entry of the journal as a line. -/
def entryLine (e : Entry) : String :=
  s!"{e.level.name} {e.target}: {e.message}"

end TalkingCalculator.Program

open TalkingCalculator TalkingCalculator.Program in
def main (arguments : List String) : IO UInt32 := do
  let home ← settingsHome
  let file := settingsFile home arguments
  let node ← nodeAt file
  let report := CommandLine.run
    { files := treeOf (Path.ofText file) node
      settingsHome := Path.ofText home
      programs := []
      waitable := true
      filter := none } arguments
  if node.isNone then writeMade file report.files
  report.journal.forM fun e => IO.eprintln (entryLine e)
  IO.print report.output
  IO.eprint report.errors
  return UInt32.ofNat report.code
