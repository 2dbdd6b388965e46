import TalkingCalculator.Text.Hexadecimal
import TalkingCalculator.Toml.Lexeme

/-!
# Texts in TOML

A text stands between quotes in one of four styles: basic or literal, on one line or on several. In
the basic styles a backslash begins an escape. A text is written in the first style that needs no
escape, and failing that in a basic one.
-/

namespace TalkingCalculator.Toml

/-- The styles of a text. -/
inductive Style where
  | basic
  | literal
  | multilineBasic
  | multilineLiteral
deriving DecidableEq, Repr

/-- The escapes of one letter, each with the character that it stands for. -/
def letterEscapes : List (Char × Char) :=
  [('b', Char.ofNat 0x08), ('t', '\t'), ('n', '\n'), ('f', Char.ofNat 0x0C), ('r', '\r'),
    ('"', '"'), ('\\', '\\')]

/-- Reads what follows the backslash of an escape. -/
def readEscape : Reader Char
  | [] => none
  | 'u' :: cs => Text.readCode 4 cs
  | 'U' :: cs => Text.readCode 8 cs
  | c :: cs => (letterEscapes.lookup c).map fun d => (d, cs)

/-- Whether a word occurs in a text. -/
def occurs (w : List Char) : List Char → Bool
  | [] => w.isEmpty
  | c :: cs => w.isPrefixOf (c :: cs) || occurs w cs

namespace Style

/-- The quote of a style. -/
def quote : Style → Char
  | basic | multilineBasic => '"'
  | literal | multilineLiteral => '\''

def isMultiline : Style → Bool
  | basic | literal => false
  | multilineBasic | multilineLiteral => true

/-- Whether a backslash begins an escape. -/
def escapes : Style → Bool
  | basic | multilineBasic => true
  | literal | multilineLiteral => false

/-- How many quotes delimit a text. -/
def width (st : Style) : Nat :=
  if st.isMultiline then 3 else 1

/-- The quotes before and after a text. -/
def delimiter (st : Style) : List Char :=
  List.replicate st.width st.quote

/-- The quotes that belong to a text and the rest, if the text ends here. A longer run of quotes
than the delimiter ends with it, as far as the text can hold the quotes before it. -/
def closing? (st : Style) : Reader (List Char) := fun cs =>
  let run := (cs.takeWhile (· = st.quote)).length
  if run < st.width then none
  else
    let held := min (run - st.width) (st.width - 1)
    some (List.replicate held st.quote, cs.drop (held + st.width))

/-- What follows a line break that a backslash hides: the break and all gaps and newlines around
it. -/
def hiddenBreak? (st : Style) (cs : List Char) : Option (List Char) :=
  if st.isMultiline then
    match skipGap cs with
    | '\n' :: rest => some (rest.dropWhile fun c => isGap c || c = '\n')
    | _ => none
  else none

end Style

theorem length_lt_of_readEscape {cs rest : List Char} {c : Char}
    (h : readEscape cs = some (c, rest)) :
    rest.length < cs.length := by
  unfold readEscape at h
  split at h
  · simp at h
  · exact Nat.lt_succ_of_lt (Text.length_lt_of_readCode h)
  · exact Nat.lt_succ_of_lt (Text.length_lt_of_readCode h)
  · obtain ⟨d, _, hd⟩ := Option.map_eq_some_iff.1 h
    cases hd
    exact Nat.lt_succ_self _

theorem Style.length_le_of_hiddenBreak? {st : Style} {cs rest : List Char}
    (h : st.hiddenBreak? cs = some rest) :
    rest.length ≤ cs.length := by
  unfold hiddenBreak? at h
  split at h
  · split at h
    · next r hr =>
      cases h
      have h1 := (List.dropWhile_sublist (l := r) fun c => isGap c || c = '\n').length_le
      have h2 := length_skipGap_le cs
      rw [hr, List.length_cons] at h2
      omega
    · simp at h
  · simp at h

/-- Reads the rest of a text after its opening delimiter. -/
def readBody (st : Style) : Reader (List Char)
  | [] => none
  | c :: cs =>
    match st.closing? (c :: cs) with
    | some found => some found
    | none =>
      if st.escapes && c = '\\' then
        match _h : st.hiddenBreak? cs with
        | some rest => readBody st rest
        | none =>
          match _h : readEscape cs with
          | some (d, rest) => (readBody st rest).map fun (ds, last) => (d :: ds, last)
          | none => none
      else if isPlain c || (st.isMultiline && c = '\n') then
        (readBody st cs).map fun (ds, last) => (c :: ds, last)
      else none
termination_by cs => cs.length
decreasing_by
  · exact Nat.lt_succ_of_le (Style.length_le_of_hiddenBreak? _h)
  · exact Nat.lt_succ_of_lt (length_lt_of_readEscape _h)
  · exact Nat.lt_succ_self _

/-- The text without a newline at its beginning. -/
def skipNewline : List Char → List Char
  | '\n' :: cs => cs
  | cs => cs

/-- Reads a text in one of the given styles, of which the first whose delimiter opens the text
counts. A newline right after the delimiter of several lines does not belong to the text. -/
def readTextIn (styles : List Style) : Reader String := fun cs => do
  let (st, body) ← styles.findSome? fun st =>
    (st.delimiter.isPrefixOf? cs).map fun body => (st, body)
  let (text, rest) ← readBody st (if st.isMultiline then skipNewline body else body)
  return (String.ofList text, rest)

def readText : Reader String :=
  readTextIn [.multilineBasic, .basic, .multilineLiteral, .literal]

def hexDigit (n : Nat) : Char :=
  if n < 10 then Char.ofNat ('0'.toNat + n) else Char.ofNat ('A'.toNat + (n - 10))

/-- A character in the basic styles, escaped if it is a control character or has an escape of one
letter. -/
def escaped (c : Char) : List Char :=
  match letterEscapes.find? fun e => e.2 = c with
  | some (letter, _) => ['\\', letter]
  | none =>
    if isPlain c then [c]
    else '\\' :: 'u' :: [c.toNat / 4096 % 16, c.toNat / 256 % 16, c.toNat / 16 % 16,
      c.toNat % 16].map hexDigit

namespace Style

/-- Whether a style can write a text without escapes, tabs aside: there is no control character, no
newline on one line, no backslash that would begin an escape, and no delimiter inside. -/
def holds (st : Style) (cs : List Char) : Bool :=
  cs.all (fun c => isPlain c || (st.isMultiline && c = '\n')) &&
    !(st.escapes && cs.contains '\\') &&
    !occurs st.delimiter cs

/-- The style in which a text is written. -/
def choose (cs : List Char) : Style :=
  ([basic, literal, multilineBasic, multilineLiteral].find? fun st => st.holds cs).getD
    (if cs.contains '\n' then multilineBasic else basic)

/-- The text between the delimiters of a basic style, after the given number of quotes. A quote that
would complete a delimiter is escaped. -/
def writeEscaped (st : Style) : Nat → List Char → List Char
  | _, [] => []
  | run, c :: cs =>
    if c = st.quote then
      if run + 1 < st.width then
        c :: writeEscaped st (run + 1) cs else escaped c ++ writeEscaped st 0 cs
    else (if st.isMultiline && c = '\n' then [c] else escaped c) ++ writeEscaped st 0 cs

def write (st : Style) (cs : List Char) : List Char :=
  st.delimiter ++ (if st.isMultiline then ['\n'] else []) ++
    (if st.escapes then st.writeEscaped 0 cs else cs) ++
    st.delimiter

end Style

/-- A text in the style that is chosen for it. -/
def writeText (s : String) : List Char :=
  (Style.choose s.toList).write s.toList

end TalkingCalculator.Toml
