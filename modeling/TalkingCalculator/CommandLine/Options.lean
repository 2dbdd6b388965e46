import TalkingCalculator.Words.Language

namespace TalkingCalculator

/-- What the arguments ask for. -/
structure Options where
  language : Option Language
  degrees : Bool
  mute : Bool
  /-- The file with the settings. -/
  settingsFile : Option String
  /-- The expression to calculate without a window. -/
  expression : Option String
  verbose : Bool
deriving DecidableEq, Repr

/-- What the program is to do. -/
inductive Invocation where
  | run (options : Options)
  | help
  | version
  /-- The arguments are not understood. -/
  | refused
deriving DecidableEq, Repr

/-- The form of an argument. -/
inductive Argument where
  /-- Two dashes, after which there are no options. -/
  | separator
  | long (name : String) (value : Option String)
  /-- A dash and letters, of which the first is given. -/
  | short (letter : Char)
  | plain
deriving DecidableEq, Repr

namespace Argument

/-- The form of a text as an argument. -/
def ofChars : List Char → Argument
  | ['-', '-'] => separator
  | '-' :: '-' :: cs =>
    let name := cs.takeWhile (· ≠ '=')
    match cs.drop name.length with
    | [] => long (String.ofList name) none
    | _ :: value => long (String.ofList name) (some (String.ofList value))
  | '-' :: c :: _ => short c
  | _ => plain

def ofText (s : String) : Argument :=
  ofChars s.toList

end Argument

namespace Options

def empty : Options :=
  ⟨none, false, false, none, none, false⟩

/-- The names of the options that take a value. -/
def valueNames : List String :=
  ["langue", "config", "calcul"]

/-- Sets the value of an option that has none yet. -/
def setValue? (o : Options) (name value : String) : Option Options :=
  if name = "langue" ∧ o.language = none then
    (Language.ofCode? value).map fun l => { o with language := some l }
  else if name = "config" ∧ o.settingsFile = none ∧
    value ≠ "" then some { o with settingsFile := some value }
  else if name = "calcul" ∧ o.expression = none then some { o with expression := some value }
  else none

/-- Sets an option without a value that is not set yet. -/
def setFlag? (o : Options) (name : String) : Option Options :=
  if name = "degres" ∧ !o.degrees then some { o with degrees := true }
  else if name = "muet" ∧ !o.mute then some { o with mute := true }
  else if name = "verbeux" ∧ !o.verbose then some { o with verbose := true }
  else none

/-- What the arguments ask for beyond the given options. The first argument that asks for help or
the version ends the reading. -/
def parse (o : Options) : List String → Invocation
  | [] => .run o
  | argument :: rest =>
    match Argument.ofText argument with
    | .separator => if rest = [] then .run o else .refused
    | .short letter => if letter = 'h' then .help else if letter = 'V' then .version else .refused
    | .plain => .refused
    | .long name (some value) =>
      match o.setValue? name value with
      | some next => next.parse rest
      | none => .refused
    | .long name none =>
      if valueNames.contains name then
        match rest with
        | [] => .refused
        | value :: rest =>
          if Argument.ofText value = .plain then
            match o.setValue? name value with
            | some next => next.parse rest
            | none => .refused
          else .refused
      else if name = "help" then .help
      else if name = "version" then .version
      else
        match o.setFlag? name with
        | some next => next.parse rest
        | none => .refused

end Options

end TalkingCalculator
