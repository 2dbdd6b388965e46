import TalkingCalculator.CommandLine.Calculation
import TalkingCalculator.CommandLine.Options
import TalkingCalculator.Journal.Filter
import TalkingCalculator.Settings.Storage

namespace TalkingCalculator

/-- What the program finds when it starts. -/
structure Environment where
  files : Files
  /-- The directory in which programs keep their settings. -/
  settingsHome : Path
  /-- The programs that can be started. -/
  programs : List String
  /-- Whether the end of a started program can be waited for. -/
  waitable : Bool
  /-- The text of the journal's filter, if it is set. -/
  filter : Option String
  /-- What the system refuses. -/
  refusals : Refusals := {}

/-- What a run of the program leaves. -/
structure Report where
  code : Nat
  output : String
  errors : String
  files : Files
  /-- The arguments of the speech programs that ended by themselves. -/
  said : List (List String)
  /-- The entries that the filter keeps. -/
  journal : List Entry

namespace CommandLine

def programName : String := "calculatrice_parlante"

def versionText : String :=
  programName ++ " 0.1.0\n"

/-- The line that shows how the program is called. -/
def usageText : String :=
  s!"Usage: {programName} [OPTIONS]\n"

def helpText : String :=
  "Calculatrice qui lit ses touches et ses résultats à voix haute\n\n" ++ usageText ++
  "\nOptions:\n" ++
  "      --langue <LANGUE>  Langue des mots et de la voix [possible values: fa, en]\n" ++
  "      --degres           Fonctions trigonométriques en degrés\n" ++
  "      --muet             Démarrer sans voix\n" ++
  "      --config <CONFIG>  Fichier de configuration (TOML)\n" ++
  "      --calcul <EXPR>    Évalue une expression, affiche et annonce le résultat, puis quitte\n" ++
  "      --verbeux          Journal détaillé (debug)\n" ++
  "  -h, --help             Print help\n" ++
  "  -V, --version          Print version\n"

/-- The filter of the journal: the one that is set, if it can be read. -/
def filterOf (options : Options) (filter : Option String) : Filter :=
  (filter.bind Filter.parse?).getD (Filter.upTo (if options.verbose then .debug else .info))

def settingsPath (options : Options) (home : Path) : Path :=
  match options.settingsFile with
  | some file => Path.ofText file
  | none => home ++ [programName, "config.toml"]

/-- What loading settings leaves in the journal. -/
def loadingEntries (path : Path) (files : Files) (refusals : Refusals) :
    Except StorageFault Settings → List Entry
  | .ok _ => if (Files.find? path files refusals).isSome then [] else [.defaultsWritten]
  | .error (.format _) => [.settingsInvalid]
  | .error _ => [.settingsUnreadable]

/-- The settings with what the options ask for. -/
def override (options : Options) (s : Settings) : Settings :=
  { s with
    language := options.language.getD s.language
    degrees := options.degrees || s.degrees
    voiceActive := !options.mute && s.voiceActive }

/-- The fonts of the system that have all glyphs. -/
def systemFonts : List String :=
  ["/usr/share/fonts/truetype/noto/NotoSansArabic-Regular.ttf",
    "/usr/share/fonts/noto/NotoSansArabic-Regular.ttf",
    "/usr/share/fonts/truetype/dejavu/DejaVuSans.ttf",
    "C:\\Windows\\Fonts\\tahoma.ttf",
    "/System/Library/Fonts/Supplemental/Arial Unicode.ttf"]

/-- What looking for a font among the given ones leaves in the journal. -/
def fontEntries (files : Files) (refusals : Refusals) : List String → List Entry
  | [] => [.noFont]
  | font :: fonts =>
    if (Files.readBytes (Path.ofText font) files refusals).isOk then [.fontLoaded]
    else .fontAbsent :: fontEntries files refusals fonts

/-- What opening the window leaves in the journal. -/
def windowEntries (files : Files) (refusals : Refusals) (s : Settings) : List Entry :=
  fontEntries files refusals ((s.font.bind String.fromUTF8?).toList ++ systemFonts) ++
    (match Speech.Voice.ofCommand s.speechCommand s.rate with
      | .silent => [.voiceDisabled]
      | .speaker _ => []) ++
    [.windowFailed]

/-- Runs the program with options. -/
def start (env : Environment) (options : Options) : Report :=
  let filter := filterOf options env.filter
  let path := settingsPath options env.settingsHome
  let (files, loaded) := Settings.load path env.files env.refusals
  let loading := loadingEntries path env.files env.refusals loaded
  let settings := override options (loaded.toOption.getD Settings.default)
  match options.expression with
  | some expression =>
    let c := Calculation.run env.programs env.waitable settings expression
    { code := c.code
      output := c.output
      errors := c.errors
      files := files
      said := c.speaker.said
      journal := (loading ++ c.journal).filter filter.keeps }
  | none =>
    { code := 1
      output := ""
      errors := ""
      files := files
      said := []
      journal := (loading ++ windowEntries files env.refusals settings).filter filter.keeps }

/-- Runs the program with arguments. -/
def run (env : Environment) (arguments : List String) : Report :=
  match Options.empty.parse arguments with
  | .run options => start env options
  | .help => ⟨0, helpText, "", env.files, [], []⟩
  | .version => ⟨0, versionText, "", env.files, [], []⟩
  | .refused => ⟨2, "", usageText, env.files, [], []⟩

end CommandLine

end TalkingCalculator
