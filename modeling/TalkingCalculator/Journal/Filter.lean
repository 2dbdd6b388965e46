import TalkingCalculator.Journal.Basic
import TalkingCalculator.Journal.Pattern

/-!
# Journal filters

A filter is a list of directives with commas between them. Each gives the greatest rank of the
entries that are kept, for all targets or for those that begin with a name, and for all entries or
for those with a field. Of the directives for an entry the most specific one decides, and of equally
specific ones the last.
-/

namespace TalkingCalculator

/-- What a directive asks of an entry besides its target. -/
inductive Condition where
  | none
  /-- The entry has a field with this name. -/
  | hasField (name : String)
  /-- The entry is made inside a span, which none is. -/
  | insideSpan
deriving DecidableEq, Repr

namespace Condition

def holds (entry : Entry) : Condition → Bool
  | none => true
  | hasField name => entry.fields.contains name
  | insideSpan => false

/-- Of two conditions on fields the one with the greater name is more specific. -/
def atLeastAsSpecific : Condition → Condition → Bool
  | hasField name, hasField other => other ≤ name
  | none, hasField _ => false
  | _, _ => true

end Condition

structure Directive where
  /-- The beginning of the targets that the directive is for. -/
  target : List Char
  condition : Condition
  /-- The greatest rank that is kept. -/
  limit : Nat
deriving DecidableEq, Repr

namespace Directive

/-- Whether a directive is for an entry. -/
def concerns (d : Directive) (entry : Entry) : Bool :=
  d.target.isPrefixOf entry.target.toList && d.condition.holds entry

/-- A directive with a longer target is more specific. -/
def atLeastAsSpecific (d other : Directive) : Bool :=
  other.target.length < d.target.length ||
    (other.target.length = d.target.length && d.condition.atLeastAsSpecific other.condition)

/-- The names of the limits, in the order of their ranks. -/
def limitNames : List String :=
  ["off", "error", "warn", "info", "debug", "trace"]

/-- The limit that a word names, in letters of either case or by its rank. -/
def limitOf? (w : List Char) : Option Nat :=
  let (sign, ds) := Decimal.splitSign w
  if sign ≠ ['-'] ∧ ds ≠ [] ∧ ds.all Char.isDigit then
    if ofDigits ds ≤ Level.trace.rank then some (ofDigits ds) else none
  else limitNames.idxOf? (String.ofList (w.map Char.toLower))

/-- The limit after an equals sign, which without a word is that of all entries. -/
def assignedLimit? (w : List Char) : Option Nat :=
  if w = [] then some Level.trace.rank else limitOf? w

/-- Whether a directive can begin with a character. -/
def begins (c : Char) : Bool :=
  c = '[' || c = '-' || c = ':' || c = '_' || Text.isAlphanumeric c

/-- The condition that a field in braces writes: its name, or its name with a value. Only spans have
values to be compared. -/
def fieldCondition? (cs : List Char) : Option Condition :=
  match cs.dropWhile (· ≠ '=') with
  | [] => if cs = [] then none else some (.hasField (String.ofList cs))
  | _ :: rest =>
    let value := rest.takeWhile (· ≠ '=')
    if Pattern.isNumber value || Pattern.isPattern value then some .insideSpan else none

/-- The directive that a text writes. The blanks around it are passed over in reading, but a name is
cut from the whole text with as many characters before it as were read before it, so that after a
blank no name is what it seems. -/
def ofText? (text : List Char) : Option Directive := do
  let read := Text.trim text
  let first ← read.head?
  if ¬ begins first then none
  else
    let place (rest : List Char) : Nat := read.length - rest.length
    let cut (start stop : List Char) : List Char := (text.take (place stop)).drop (place start)
    let limit? (rest : List Char) : Option Nat :=
      match rest with
      | [] => some Level.trace.rank
      | '=' :: rest => assignedLimit? (text.drop (place rest))
      | _ => none
    let rest := read.dropWhile fun c => c ≠ '=' && c ≠ '['
    match rest with
    | [] =>
      match limitOf? text with
      | some limit => some ⟨[], .none, limit⟩
      | none => some ⟨text, .none, Level.trace.rank⟩
    | '[' :: span =>
      match span.dropWhile fun c => c ≠ ']' && c ≠ '\x7b' with
      | '\x7b' :: field =>
        match field.dropWhile (· ≠ '\x7d') with
        | '\x7d' :: ']' :: after => do
          let condition ← fieldCondition? (cut field ('\x7d' :: ']' :: after))
          let limit ← limit? after
          let named := cut span ('\x7b' :: field) ≠ []
          some ⟨cut read rest, if named then .insideSpan else condition, limit⟩
        | _ => none
      | ']' :: after => (limit? after).map fun limit => ⟨cut read rest, .insideSpan, limit⟩
      | _ => none
    | _ => (limit? rest).map fun limit => ⟨cut read rest, .none, limit⟩

end Directive

abbrev Filter := List Directive

namespace Filter

/-- The filter that keeps entries down to a level. -/
def upTo (level : Level) : Filter :=
  [⟨[], .none, level.rank⟩]

/-- The filter that a text writes. A text without directives keeps errors. -/
def parse? (s : String) : Option Filter :=
  let texts := (s.splitOn ",").filter (· ≠ "")
  if texts = [] then some (upTo .error) else texts.mapM fun text => Directive.ofText? text.toList

/-- The directive that decides on an entry. -/
def deciding? (filter : Filter) (entry : Entry) : Option Directive :=
  (filter.filter fun d => d.concerns entry).foldl (fun best d =>
    if best.all d.atLeastAsSpecific then some d else best) none

def keeps (filter : Filter) (entry : Entry) : Bool :=
  (filter.deciding? entry).any fun d => entry.level.rank ≤ d.limit

end Filter

end TalkingCalculator
