import TalkingCalculator.Association

/-!
# Files

A tree of directories and files, and the accesses to it that the settings need. An access follows a
path step by step, and finds what it looks for or names the fault that keeps it from doing so.
-/

namespace TalkingCalculator

/-- What a name in a directory stands for. -/
inductive Node where
  | file (contents : ByteArray)
  | directory (entries : List (String × Node))

/-- The entries of the topmost directory. -/
abbrev Files := List (String × Node)

/-- The names from the topmost directory down to what they stand for. -/
abbrev Place := List String

/-- What stands at a place inside of something. -/
def Node.at? : Place → Node → Option Node
  | [], node => some node
  | name :: place, .directory entries => (entries.lookup name).bind (at? place)
  | _ :: _, .file _ => none

/-- The steps from the topmost directory, where the program works, to what a path leads to. Two
points lead back to the directory above, one point and no name at all stay in the directory, and
any other step is a name in it. The empty path leads nowhere, and no name leads elsewhere than to
its own place: there are no links. -/
abbrev Path := List String

/-- The place that a step leads to from a directory. -/
def Place.after (place : Place) (step : String) : Place :=
  if step = "" ∨ step = "." then place
  else if step = ".." then place.dropLast
  else place ++ [step]

namespace Path

/-- The path that a text writes with slashes between steps. -/
def ofText (s : String) : Path :=
  if s = "" then [] else s.splitOn "/"

def text (path : Path) : String :=
  "/".intercalate path

/-- Whether a step leaves the directory that it is taken in. -/
def moves (step : String) : Bool :=
  step ≠ "" && step ≠ "."

/-- The path without its last step that moves, and without those that stay. -/
def parent (path : Path) : Path :=
  (path.filter moves).dropLast

end Path

inductive FileFault where
  | notFound
  | alreadyExists
  | notDirectory
  | isDirectory
  | invalidText
  /-- The system refuses the access, for a reason of its own. -/
  | refused (reason : String)
deriving DecidableEq, Repr

def FileFault.message : FileFault → String
  | notFound => "No such file or directory (os error 2)"
  | alreadyExists => "File exists (os error 17)"
  | notDirectory => "Not a directory (os error 20)"
  | isDirectory => "Is a directory (os error 21)"
  | invalidText => "stream did not contain valid UTF-8"
  | refused reason => reason

/-- Why a file is not written to its end, and how many of its bytes are there if it was opened at
all. -/
structure Interruption where
  cause : FileFault
  written : Option Nat

/-- What the system refuses at each place: for lack of permission, of space, or because a device
fails. -/
structure Refusals where
  /-- Taking a step from a directory. -/
  passage : Place → String → Option FileFault := fun _ _ => none
  /-- Making a directory. -/
  creation : Place → Option FileFault := fun _ => none
  /-- Writing a file. -/
  writing : Place → Option Interruption := fun _ => none
  /-- Reading what is there. -/
  reading : Place → Option FileFault := fun _ => none

namespace Files

/-- What stands at a place. -/
def node? (place : Place) (files : Files) : Option Node :=
  (Node.directory files).at? place

/-- Puts something at a place in a directory, instead of what was there. -/
def put (node : Node) : Place → Files → Files
  | [], files => files
  | name :: place, files =>
    if place = [] then Association.put name node files
    else
      match files.lookup name with
      | some (.directory entries) =>
        Association.put name (.directory (put node place entries)) files
      | _ => files

/-- The place that steps lead to. Each of them is taken from a directory that is there. -/
def follow (refusals : Refusals) (files : Files) : Path → Place → Except FileFault Place
  | [], here => .ok here
  | step :: path, here =>
    match node? here files with
    | none => .error .notFound
    | some (.file _) => .error .notDirectory
    | some (.directory _) =>
      match refusals.passage here step with
      | some cause => .error cause
      | none => follow refusals files path (here.after step)

/-- The place that a path leads to, where something stands or can be put. -/
def locate (path : Path) (files : Files) (refusals : Refusals := {}) : Except FileFault Place :=
  if path = [] then .error .notFound else follow refusals files path []

/-- What a path leads to, as far as it can be followed. -/
def find? (path : Path) (files : Files) (refusals : Refusals := {}) : Option Node :=
  match locate path files refusals with
  | .error _ => none
  | .ok place => node? place files

/-- Whether a path leads to a directory. -/
def holdsDirectory (path : Path) (files : Files) (refusals : Refusals := {}) : Bool :=
  match find? path files refusals with
  | some (.directory _) => true
  | _ => false

/-- Makes a directory in one that is there. -/
def makeEntry (path : Path) (files : Files) (refusals : Refusals) : Except FileFault Files :=
  match locate path files refusals with
  | .error cause => .error cause
  | .ok place =>
    match node? place files, refusals.creation place with
    | some _, _ => .error .alreadyExists
    | none, some cause => .error cause
    | none, none => .ok (put (.directory []) place files)

/-- Makes a directory in one that is there, or leaves the one that the path leads to. -/
def ensureEntry (path : Path) (files : Files) (refusals : Refusals) :
    Files × Except FileFault Unit :=
  match makeEntry path files refusals with
  | .ok made => (made, .ok ())
  | .error cause => (files, if holdsDirectory path files refusals then .ok () else .error cause)

/-- Makes the directory that steps lead to, the last of them first, after those above it if they
are missing. -/
def makeAbove (refusals : Refusals) : List String → Files → Files × Except FileFault Unit
  | [], files => (files, .ok ())
  | step :: steps, files =>
    match makeEntry (step :: steps).reverse files refusals with
    | .error .notFound =>
      match makeAbove refusals steps files with
      | (made, .ok ()) => ensureEntry (step :: steps).reverse made refusals
      | (made, .error cause) => (made, .error cause)
    | _ => ensureEntry (step :: steps).reverse files refusals

/-- Makes a directory and those above it, where they are missing. -/
def makeDirectory (path : Path) (files : Files) (refusals : Refusals := {}) :
    Files × Except FileFault Unit :=
  makeAbove refusals path.reverse files

/-- The fault of writing where a path does not lead. A slash at the end asks for a directory. -/
def writingFault (path : Path) (files : Files) (refusals : Refusals) (cause : FileFault) :
    FileFault :=
  if path.getLast? = some "" ∧
      (locate (path.reverse.dropWhile (· = "")).reverse files refusals).isOk then .isDirectory
  else cause

/-- Writes a file in a directory that is there, in place of what it held before. -/
def write (contents : ByteArray) (path : Path) (files : Files) (refusals : Refusals := {}) :
    Files × Except FileFault Unit :=
  match locate path files refusals with
  | .error cause => (files, .error (writingFault path files refusals cause))
  | .ok place =>
    match node? place files with
    | some (.directory _) => (files, .error .isDirectory)
    | _ =>
      match refusals.writing place with
      | none => (put (.file contents) place files, .ok ())
      | some ⟨cause, none⟩ => (files, .error cause)
      | some ⟨cause, some count⟩ =>
        (put (.file (contents.extract 0 count)) place files, .error cause)

def readBytes (path : Path) (files : Files) (refusals : Refusals := {}) :
    Except FileFault ByteArray :=
  match locate path files refusals with
  | .error cause => .error cause
  | .ok place =>
    match node? place files, refusals.reading place with
    | none, _ => .error .notFound
    | some _, some cause => .error cause
    | some (.directory _), none => .error .isDirectory
    | some (.file contents), none => .ok contents

def readText (path : Path) (files : Files) (refusals : Refusals := {}) : Except FileFault String :=
  match readBytes path files refusals with
  | .error cause => .error cause
  | .ok contents =>
    match String.fromUTF8? contents with
    | none => .error .invalidText
    | some text => .ok text

end Files

end TalkingCalculator
