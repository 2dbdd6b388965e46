import TalkingCalculator.Number.Decimal
import TalkingCalculator.Text.Blank
import TalkingCalculator.Text.Hexadecimal
import TalkingCalculator.Text.Letter

/-!
# Patterns

A directive can ask for a value that is a given number or matches a given pattern, a regular
expression. No entry is ever matched with one, so all that is decided here is whether a text is a
pattern. The texts have no closing brace, since it would end the directive. So nothing that begins
with an opening brace is ever complete.
-/

namespace TalkingCalculator.Pattern

/-- What flags decide, from the place where they stand to the end of their group. -/
structure Flags where
  /-- Whether a pattern matches characters, not bytes. -/
  unicode : Bool
  /-- Whether blanks and comments inside a pattern are passed over. -/
  spaced : Bool
deriving DecidableEq, Repr

/-- A piece of a pattern without operators. -/
inductive Atom where
  | literal (c : Char)
  /-- Two hexadecimal digits, for a character or a byte. -/
  | byte (c : Char)
  /-- A letter for digits, blanks or word characters, or for all others. -/
  | shorthand (negated : Bool)
  /-- A letter for a category of characters. -/
  | category
  /-- The edge of a word, or a place that is none. -/
  | edge
  /-- Another place between characters. -/
  | place
deriving DecidableEq, Repr

/-- Whether an atom can match within characters. With bytes, nothing may match a part of a
character. -/
def Atom.inClass (f : Flags) : Atom → Bool
  | literal c | byte c => f.unicode || c.toNat < 0x80
  | shorthand negated => f.unicode || !negated
  | category => f.unicode
  | edge | place => false

/-- Whether an atom can stand outside a class. Edges of words are known for bytes only. -/
def Atom.outsideClass (f : Flags) : Atom → Bool
  | literal _ | place => true
  | edge => !f.unicode
  | a => a.inClass f

/-- The character of an atom that can bound a range. -/
def Atom.char? : Atom → Option Char
  | literal c | byte c => some c
  | _ => none

/-- The text without the blanks and comments at its beginning, if they are passed over. -/
def skip (f : Flags) : List Char → List Char
  | [] => []
  | c :: cs =>
    if ¬ f.spaced then c :: cs
    else if Text.isBlank c then skip f cs
    else if c = '#' then skip f (cs.dropWhile (· ≠ '\n'))
    else c :: cs
termination_by cs => cs.length
decreasing_by
  · simp
  · exact Nat.lt_succ_of_le (List.dropWhile_sublist _).length_le

/-- The letters of categories. -/
def categories : List Char :=
  ['c', 'l', 'm', 'n', 'p', 's', 'z']

/-- The letters that stand for control characters. -/
def controls : List (Char × Char) :=
  [('a', '\x07'), ('f', '\x0c'), ('t', '\t'), ('n', '\n'), ('r', '\r'), ('v', '\x0b')]

/-- Reads what follows a backslash. A character that is no letter or digit stands for itself. -/
def readEscape (f : Flags) : List Char → Option (Atom × List Char)
  | [] => none
  | c :: cs =>
    if c = 'x' then (Text.readCode 2 (skip f cs)).map fun (d, rest) => (.byte d, rest)
    else if c = 'u' then (Text.readCode 4 (skip f cs)).map fun (d, rest) => (.literal d, rest)
    else if c = 'U' then (Text.readCode 8 (skip f cs)).map fun (d, rest) => (.literal d, rest)
    else if c = 'p' ∨ c = 'P' then
      match skip f cs with
      | [] => none
      | letter :: rest =>
        if categories.contains letter.toLower then some (.category, rest) else none
    else if ['d', 's', 'w'].contains c then some (.shorthand false, cs)
    else if ['D', 'S', 'W'].contains c then some (.shorthand true, cs)
    else if ['b', 'B', '<', '>'].contains c then some (.edge, cs)
    else if ['A', 'z'].contains c then some (.place, cs)
    else
      match controls.lookup c with
      | some d => some (.literal d, cs)
      | none => if c.toNat < 0x80 ∧ ¬ c.isAlphanum then some (.literal c, cs) else none

/-! ### Classes -/

/-- Reads one bound of a range, or an item by itself. -/
def readItem (f : Flags) : List Char → Option (Atom × List Char)
  | [] => none
  | c :: cs => if c = '\\' then readEscape f cs else some (.literal c, cs)

/-- Whether two atoms bound a range. -/
def boundRange (f : Flags) (first last : Atom) : Bool :=
  first.inClass f && last.inClass f &&
    match first.char?, last.char? with
    | some a, some b => a ≤ b
    | _, _ => false

/-- What follows an item of a class or a range. A dash before the end of the class, or before
another dash, makes no range. -/
def skipItem? (f : Flags) (cs : List Char) : Option (List Char) := do
  let (first, rest) ← readItem f cs
  let alone := if first.inClass f then some rest else none
  match skip f rest with
  | '-' :: more =>
    match skip f more with
    | ']' :: _ | '-' :: _ => alone
    | start =>
      let (last, rest) ← readItem f start
      if boundRange f first last then some rest else none
  | _ => alone

/-- The names of classes that stand between colons. -/
def classNames : List String :=
  ["alnum", "alpha", "ascii", "blank", "cntrl", "digit", "graph", "lower", "print", "punct",
    "space", "upper", "word", "xdigit"]

/-- The text without the mark of a negation at its beginning, and whether there is one. -/
def splitNegation : List Char → Bool × List Char
  | '^' :: cs => (true, cs)
  | cs => (false, cs)

/-- Reads a named class after its bracket, and returns whether it is negated. -/
def readNamed : List Char → Option (Bool × List Char)
  | ':' :: cs =>
    let (negated, cs) := splitNegation cs
    let name := cs.takeWhile (· ≠ ':')
    match cs.drop name.length with
    | ':' :: ']' :: rest =>
      if classNames.contains (String.ofList name) then some (negated, rest) else none
    | _ => none
  | _ => none

/-- What follows the beginning of a class after its bracket. Dashes stand for themselves there, and
so does a closing bracket. With bytes, a negated class would match parts of characters. -/
def skipOpening? (f : Flags) (cs : List Char) : Option (List Char) :=
  let (negated, rest) := splitNegation (skip f cs)
  if negated && !f.unicode then none
  else
    match skip f rest with
    | ']' :: rest => some rest
    | rest => some (rest.dropWhile (· = '-'))

/-- Reads one part of a class inside the given number of brackets, and returns the number of
brackets after it. -/
def classStep (f : Flags) (depth : Nat) : List Char → Option (Nat × List Char)
  | ']' :: rest => some (depth - 1, rest)
  | '[' :: rest =>
    match readNamed rest with
    | some (negated, rest) => if negated && !f.unicode then none else some (depth, rest)
    | none => (skipOpening? f rest).map fun rest => (depth + 1, rest)
  | '&' :: '&' :: rest | '-' :: '-' :: rest | '~' :: '~' :: rest => some (depth, rest)
  | cs => (skipItem? f cs).map fun rest => (depth, rest)

/-- What follows a class, inside the given number of its brackets. -/
def skipClass? (f : Flags) (depth : Nat) (cs : List Char) : Option (List Char) :=
  match classStep f depth (skip f cs) with
  | none => none
  | some (0, rest) => some rest
  | some (depth + 1, rest) =>
    if _h : rest.length < cs.length then skipClass? f (depth + 1) rest else none
termination_by cs.length

/-! ### Groups -/

/-- The letters of flags, and the dash after which they are taken away. -/
def flagLetters : List Char :=
  ['i', 'm', 's', 'U', 'u', 'R', 'x', '-']

/-- The flags after a change, which names no letter twice and takes at least one away after a
dash. -/
def Flags.change? (f : Flags) (letters : List Char) : Option Flags :=
  let given := letters.takeWhile (· ≠ '-')
  let taken := letters.dropWhile (· ≠ '-')
  let after (letter : Char) (before : Bool) : Bool :=
    (before || given.contains letter) && !taken.contains letter
  if letters.all (fun c => flagLetters.contains c && letters.count c = 1) &&
      letters.getLast? ≠ some '-' then
    some ⟨after 'u' f.unicode, after 'x' f.spaced⟩
  else none

/-- Whether a text can name a group. -/
def isGroupName : List Char → Bool
  | [] => false
  | c :: cs =>
    (c = '_' || Text.isAlphabetic c) && cs.all fun d =>
      ['_', '.', '[', ']'].contains d || Text.isAlphanumeric d

/-- The reading of a pattern up to a place. -/
structure State where
  flags : Flags
  /-- Whether a repetition can follow. -/
  repeatable : Bool
  /-- For each open group, the innermost first, the flags that count again after it. -/
  groups : List Flags
  /-- The names of groups. -/
  names : List (List Char)
deriving DecidableEq, Repr

namespace State

def start : State :=
  ⟨⟨true, false⟩, false, [], []⟩

/-- Opens a group that begins with the given flags. -/
def openGroup (s : State) (f : Flags) : State :=
  { s with flags := f, repeatable := false, groups := s.flags :: s.groups }

/-- Opens a group with a name, which must be new. -/
def openNamed (s : State) (cs : List Char) : Option (State × List Char) :=
  let name := cs.takeWhile (· ≠ '>')
  match cs.drop name.length with
  | [] => none
  | _ :: rest =>
    if isGroupName name && !s.names.contains name then
      some ({ s.openGroup s.flags with names := name :: s.names }, rest)
    else none

/-- Reads what follows an opening parenthesis. Flags can stand by themselves or begin a group. -/
def open? (s : State) : List Char → Option (State × List Char)
  | '?' :: 'P' :: '<' :: rest | '?' :: '<' :: rest => s.openNamed rest
  | '?' :: rest => do
    let letters := rest.takeWhile fun c => c ≠ ':' && c ≠ ')'
    let f ← s.flags.change? letters
    match rest.drop letters.length with
    | ':' :: rest => some (s.openGroup f, rest)
    | ')' :: rest =>
      if letters = [] then none else some ({ s with flags := f, repeatable := false }, rest)
    | _ => none
  | cs => some (s.openGroup s.flags, cs)

/-- Reads an atom outside classes. -/
def readAtom (s : State) (found : Option (Atom × List Char)) : Option (State × List Char) := do
  let (a, rest) ← found
  if a.outsideClass s.flags then some ({ s with repeatable := true }, rest) else none

/-- Reads the next part of a pattern. -/
def step (s : State) : List Char → Option (State × List Char)
  | [] => none
  | '(' :: rest => s.open? (skip s.flags rest)
  | ')' :: rest =>
    match s.groups with
    | [] => none
    | f :: groups => some ({ s with flags := f, repeatable := true, groups := groups }, rest)
  | '|' :: rest => some ({ s with repeatable := false }, rest)
  | '[' :: rest => do
    let rest ← skipOpening? s.flags rest
    let rest ← skipClass? s.flags 1 rest
    return ({ s with repeatable := true }, rest)
  | '?' :: rest | '*' :: rest | '+' :: rest => if s.repeatable then some (s, rest) else none
  | '\x7b' :: _ => none
  | '.' :: rest => if s.flags.unicode then some ({ s with repeatable := true }, rest) else none
  | '\\' :: rest => s.readAtom (readEscape s.flags rest)
  | _ :: rest => some ({ s with repeatable := true }, rest)

/-- Whether the rest of a pattern can be read, which closes all groups. -/
def accepts (s : State) (cs : List Char) : Bool :=
  match skip s.flags cs with
  | [] => s.groups.isEmpty
  | start =>
    match s.step start with
    | none => false
    | some (next, rest) => if _h : rest.length < cs.length then next.accepts rest else false
termination_by cs.length

end State

def isPattern (cs : List Char) : Bool :=
  State.start.accepts cs

/-- Whether a text is a number, with or without a sign. -/
def isNumber (cs : List Char) : Bool :=
  let unsigned := (Decimal.splitSign cs).2
  (Decimal.read? unsigned).isSome ||
    ["inf", "infinity", "nan"].contains (String.ofList (unsigned.map Char.toLower))

end TalkingCalculator.Pattern
