import TalkingCalculator.Toml.Moment
import TalkingCalculator.Toml.Numeral
import TalkingCalculator.Toml.Text
import TalkingCalculator.Toml.Value

namespace TalkingCalculator.Toml

/-- Arrays and inline tables nest, and dotted keys are long, less than this. -/
def depthLimit : Nat := 80

/-- Whether a character can stand in a bare key. -/
def isBare (c : Char) : Bool :=
  c.isAlphanum || c = '_' || c = '-'

/-- Reads one part of a key, which is bare or a text on one line. -/
def readKeyPart : Reader String := fun cs =>
  if (cs.takeWhile isBare) ≠ [] then some (String.ofList (cs.takeWhile isBare), cs.dropWhile isBare)
  else readTextIn [.basic, .literal] cs

/-- Reads a key: parts with points and gaps between them. -/
def readKeyParts (cs : List Char) : Option (List String × List Char) :=
  match readKeyPart (skipGap cs) with
  | none => none
  | some (part, rest) =>
    match skipGap rest with
    | '.' :: rest =>
      if _h : rest.length < cs.length then
        (readKeyParts rest).map fun (parts, last) => (part :: parts, last)
      else none
    | rest => some ([part], rest)
termination_by cs.length

/-- Reads a key that is not too long. -/
def readKey : Reader (List String) := fun cs => do
  let (parts, rest) ← readKeyParts cs
  if parts.length < depthLimit then some (parts, rest) else none

/-- Reads the items of an array after its opening bracket. A comma may follow the last one. -/
def readItems (readItem : Reader Value) (cs : List Char) : Option (List Value × List Char) :=
  match skipSpace cs with
  | ']' :: rest => some ([], rest)
  | start =>
    match readItem start with
    | none => none
    | some (v, rest) =>
      match skipSpace rest with
      | ']' :: rest => some ([v], rest)
      | ',' :: rest =>
        if _h : rest.length < cs.length then
          (readItems readItem rest).map fun (vs, last) => (v :: vs, last)
        else none
      | _ => none
termination_by cs.length

/-- Reads a key, an equals sign and a value, with gaps around each. -/
def readPair (readItem : Reader Value) : Reader (List String × Value) := fun cs => do
  let (path, rest) ← readKey cs
  match rest with
  | '=' :: rest =>
    let (v, rest) ← readItem (skipGap rest)
    return ((path, v), rest)
  | _ => none

/-- Reads the pairs of an inline table up to its closing brace. -/
def readPairs (readItem : Reader Value) (cs : List Char) :
    Option (List (List String × Value) × List Char) :=
  match readPair readItem cs with
  | none => none
  | some (pair, rest) =>
    match skipGap rest with
    | '\x7d' :: rest => some ([pair], rest)
    | ',' :: rest =>
      if _h : rest.length < cs.length then
        (readPairs readItem rest).map fun (pairs, last) => (pair :: pairs, last)
      else none
    | _ => none
termination_by cs.length

/-- Reads an inline table after its opening brace. -/
def readInline (readItem : Reader Value) : Reader Value := fun cs =>
  match skipGap cs with
  | '\x7d' :: rest => some (.table .inline [], rest)
  | _ => do
    let (pairs, rest) ← readPairs readItem cs
    let entries ← Entries.ofPairs pairs
    return (.table .inline entries, rest)

def readBoolean : Reader Bool
  | 't' :: 'r' :: 'u' :: 'e' :: rest => some (true, rest)
  | 'f' :: 'a' :: 'l' :: 's' :: 'e' :: rest => some (false, rest)
  | _ => none

/-- Reads a value that holds no other. -/
def readScalar : Reader Value := fun cs =>
  match skipMoment cs with
  | some rest => some (.moment, rest)
  | none =>
    match readNumeral cs with
    | some (.integer n, rest) => some (.integer n, rest)
    | some (.float x, rest) => some (.float x, rest)
    | none =>
      match readBoolean cs with
      | some (b, rest) => some (.boolean b, rest)
      | none => (readText cs).map fun (s, rest) => (.text s, rest)

/-- Reads a value in which arrays and inline tables nest at most the given number of levels. -/
def readValue : Nat → Reader Value
  | 0, cs => readScalar cs
  | levels + 1, cs =>
    match cs with
    | '[' :: rest => (readItems (readValue levels) rest).map fun (vs, rest) => (.array vs, rest)
    | '\x7b' :: rest => readInline (readValue levels) rest
    | cs => readScalar cs

/-- Reads the statement of a line, if it has one. -/
def readStatement (cs : List Char) : Option (List Statement × List Char) :=
  match skipGap cs with
  | [] => some ([], [])
  | '#' :: rest => some ([], '#' :: rest)
  | '\n' :: rest => some ([], '\n' :: rest)
  | '[' :: '[' :: rest => do
    match ← readKey rest with
    | (path, ']' :: ']' :: rest) => some ([.elementHeader path], rest)
    | _ => none
  | '[' :: rest => do
    match ← readKey rest with
    | (path, ']' :: rest) => some ([.header path], rest)
    | _ => none
  | start => (readPair (readValue (depthLimit - 1)) start).map fun
      ((path, v), rest) => ([.assignment path v], rest)

def readLines (cs : List Char) : Option (List Statement) :=
  if cs = [] then some []
  else
    match readStatement cs with
    | none => none
    | some (statements, rest) =>
      match lineEnd? rest with
      | none => none
      | some rest =>
        if _h : rest.length < cs.length then
          (readLines rest).map fun more => statements ++ more
        else none
termination_by cs.length

/-- The text without a byte order mark at its beginning. -/
def skipMark : List Char → List Char
  | c :: cs => if c.toNat = 0xFEFF then cs else c :: cs
  | [] => []

def readDocument (s : String) : Option Entries := do
  let statements ← readLines (unifyLineEnds (skipMark s.toList))
  Entries.build [] statements []

end TalkingCalculator.Toml
