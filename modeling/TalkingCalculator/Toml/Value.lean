import TalkingCalculator.Association

/-!
# Values and tables of TOML

A document is a table whose entries come from assignments and headers. How a table came into being
decides what may still be added to it: a table that a header names can be named only once, one that
a header merely passes through can still be named, and one that dotted keys imply takes further
dotted keys. An inline table takes nothing.
-/

namespace TalkingCalculator.Toml

/-- How a table came into being. -/
inductive Origin where
  /-- It is written in braces. -/
  | inline
  /-- A header names it. -/
  | named
  /-- A header passes through it. -/
  | passed
  /-- A dotted key passes through it. -/
  | dotted
deriving DecidableEq, Repr

inductive Value where
  | text (s : String)
  | integer (n : Int)
  | float (x : Float)
  | boolean (b : Bool)
  /-- A date or a time. -/
  | moment
  | array (items : List Value)
  | table (origin : Origin) (entries : List (String × Value))
  /-- The array of the tables that headers in double brackets add. -/
  | tables (items : List (List (String × Value)))

/-- The entries of a table. -/
abbrev Entries := List (String × Value)

namespace Entries

/-- Changes the value of a key, where there is none for a key that is absent. -/
def alter (key : String) (f : Option Value → Option Value) (entries : Entries) : Option Entries :=
  (f (entries.lookup key)).map fun value => Association.put key value entries

/-- Changes the last of several tables. -/
def alterLast (f : Entries → Option Entries) : List Entries → Option (List Entries)
  | [] => none
  | [entries] => (f entries).map fun entries => [entries]
  | entries :: more => (alterLast f more).map fun more => entries :: more

/-- Assigns a value to a dotted key in a table that may take it, as far as `takes` says. Keys on the
way may be absent or lead through tables without a header of their own, or to the last table of an
array. -/
def assign (value : Value) : Bool → List String → Entries → Option Entries
  | _, [], _ => none
  | takes, [key], entries =>
    alter key (fun
      | none => if takes then some value else none
      | some _ => none) entries
  | _, key :: path, entries =>
    alter key (fun
      | none => (assign value true path []).map (.table .dotted)
      | some (.table .dotted inner) => (assign value true path inner).map (.table .dotted)
      | some (.table .passed inner) => (assign value false path inner).map (.table .passed)
      | some (.tables items) => (alterLast (assign value false path) items).map .tables
      | some _ => none) entries

/-- Changes the value that a header names. Keys on the way may be absent. -/
def follow (f : Option Value → Option Value) : List String → Entries → Option Entries
  | [], _ => none
  | [key], entries => alter key f entries
  | key :: path, entries =>
    alter key (fun
      | none => (follow f path []).map (.table .passed)
      | some (.table .inline _) => none
      | some (.table origin inner) => (follow f path inner).map (.table origin)
      | some (.tables items) => (alterLast (follow f path) items).map .tables
      | some _ => none) entries

/-- Begins the table that a header names. -/
def beginTable (path : List String) (entries : Entries) : Option Entries :=
  follow (fun
    | none => some (.table .named [])
    | some (.table .passed inner) => some (.table .named inner)
    | some _ => none) path entries

/-- Begins a further table of the array that a header in double brackets names. -/
def beginElement (path : List String) (entries : Entries) : Option Entries :=
  follow (fun
    | none => some (.tables [[]])
    | some (.tables items) => some (.tables (items ++ [[]]))
    | some _ => none) path entries

/-- Assigns a value to a dotted key in the table that the last header begins. No header stands for
the document. -/
def assignUnder (header : List String) (path : List String) (value : Value) (entries : Entries) :
    Option Entries :=
  if header = [] then assign value true path entries
  else
    follow (fun
      | some (.table origin inner) => (assign value true path inner).map (.table origin)
      | some (.tables items) => (alterLast (assign value true path) items).map .tables
      | _ => none) header entries

end Entries

inductive Statement where
  | header (path : List String)
  | elementHeader (path : List String)
  | assignment (path : List String) (value : Value)

/-- The entries that statements make, after those before them and under the last header. -/
def Entries.build (header : List String) : List Statement → Entries → Option Entries
  | [], entries => some entries
  | .header path :: rest, entries => entries.beginTable path >>= build path rest
  | .elementHeader path :: rest, entries => entries.beginElement path >>= build path rest
  | .assignment path value :: rest, entries =>
    entries.assignUnder header path value >>= build header rest

def Entries.ofPairs (pairs : List (List String × Value)) : Option Entries :=
  pairs.foldlM (fun entries (path, value) => entries.assign value true path) []

end TalkingCalculator.Toml
