import TalkingCalculator.Text.Blank
import TalkingCalculator.Expression.Fault
import TalkingCalculator.Expression.Lexer

/-!
# Input texts

What is typed is prepared before it is cut into tokens: blank ends are trimmed, the glyphs of the
keys are replaced by plain characters, a percent sign that directly follows digits turns them into a
fraction of a hundred, and the text is checked against the permitted characters and names.
-/

namespace TalkingCalculator.Input

/-- What a glyph stands for. Other characters stand for themselves. -/
def plain : Char → List Char
  | '×' => ['*']
  | '÷' => ['/']
  | '−' => ['-']
  | 'π' => ['P', 'I']
  | c => [c]

/-- The text with plain characters in place of glyphs. -/
def replaceGlyphs (cs : List Char) : List Char :=
  cs.flatMap plain

/-- A percentage as a quotient in parentheses. -/
def asFraction (run : List Char) : List Char :=
  '(' :: run ++ ['/', '1', '0', '0', ')']

/-- Expands percentages, where `run` is the run of digits and points that was read last, in
reverse. -/
def expandPercentFrom (run : List Char) : List Char → List Char
  | [] => run.reverse
  | c :: cs =>
    if Lexer.isMantissa c then expandPercentFrom (c :: run) cs
    else if c = '%' ∧ run ≠ [] then asFraction run.reverse ++ expandPercentFrom [] cs
    else run.reverse ++ c :: expandPercentFrom [] cs

/-- The text with each longest run of digits and points that a percent sign directly follows, and
that sign, replaced by a quotient. Any other percent sign stays. -/
def expandPercent (cs : List Char) : List Char :=
  expandPercentFrom [] cs

/-- Whether a character is permitted by itself: digits, the point, operators, parentheses, the comma
and blanks. -/
def isPermitted (c : Char) : Bool :=
  c.isDigit || ['.', '+', '-', '*', '/', '%', '(', ')', ','].contains c || Text.isBlank c

/-- The permitted names. None is the beginning of another. -/
def names : List (List Char) :=
  ["sin", "cos", "tan", "sqrt", "pow", "log", "PI", "e"].map String.toList

/-- What follows the permitted character or name at the beginning of a text. -/
def dropPiece? : List Char → Option (List Char)
  | [] => none
  | c :: cs =>
    if isPermitted c then some cs
    else (names.find? fun w => w.isPrefixOf (c :: cs)).map fun w => (c :: cs).drop w.length

theorem ne_nil_of_mem_names : ∀ w ∈ names, w ≠ [] := by
  decide

/-- A piece is a permitted character or a permitted name. -/
def IsPiece (w : List Char) : Prop :=
  (∃ c, w = [c] ∧ isPermitted c = true) ∨ w ∈ names

theorem exists_piece_of_dropPiece? {cs rest : List Char} (h : dropPiece? cs = some rest) :
    ∃ w, IsPiece w ∧ cs = w ++ rest := by
  cases cs with
  | nil => simp [dropPiece?] at h
  | cons c cs =>
    rw [dropPiece?] at h
    split at h
    · next hc =>
      cases h
      exact ⟨[c], .inl ⟨c, rfl, hc⟩, rfl⟩
    · obtain ⟨w, hw, rfl⟩ := Option.map_eq_some_iff.1 h
      refine ⟨w, .inr (List.mem_of_find?_eq_some hw), ?_⟩
      have hstart : w.isPrefixOf (c :: cs) = true := by simpa using List.find?_some hw
      have hprefix : w <+: c :: cs := List.isPrefixOf_iff_prefix.1 hstart
      exact (List.prefix_iff_eq_append.1 hprefix).symm

theorem length_lt_of_dropPiece? {cs rest : List Char} (h : dropPiece? cs = some rest) :
    rest.length < cs.length := by
  obtain ⟨w, hw, rfl⟩ := exists_piece_of_dropPiece? h
  have hne : w ≠ [] := by
    rcases hw with ⟨c, rfl, _⟩ | hw
    · simp
    · exact ne_nil_of_mem_names w hw
  have := List.length_pos_iff.2 hne
  rw [List.length_append]
  omega

/-- Whether a text is a sequence of pieces. -/
def isSequence (cs : List Char) : Bool :=
  if cs = [] then true
  else
    match _h : dropPiece? cs with
    | some rest => isSequence rest
    | none => false
termination_by cs.length
decreasing_by exact length_lt_of_dropPiece? ‹_›

/-- Checks that a text is permitted: a sequence of at least one piece. -/
def check (s : String) : Except Fault Unit :=
  if s.toList ≠ [] ∧ isSequence s.toList then .ok () else .error (.grammar (.disallowed s))

/-- The prepared form of a text. -/
def prepare (s : String) : Except Fault String :=
  let cs := Text.trim s.toList
  if cs = [] then .error .blank
  else do
    let prepared := String.ofList (expandPercent (replaceGlyphs cs))
    check prepared
    return prepared

end TalkingCalculator.Input
