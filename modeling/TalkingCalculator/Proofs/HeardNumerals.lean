import TalkingCalculator.Words.Numeral

namespace TalkingCalculator

/-- What a word of a numeral does to the number that is being heard. -/
inductive Weight where
  /-- It adds to the current group. -/
  | amount (n : Nat)
  /-- It makes hundreds of the current group. -/
  | hundred
  /-- It closes the current group and says what the group counts. -/
  | scale (unit : Nat)
  /-- It closes the count of trillions. -/
  | trillion
deriving DecidableEq

/-- A number that is being heard: the sum of the closed groups, and the current group. -/
structure Hearing where
  closed : Nat
  group : Nat

namespace Hearing

def start : Hearing :=
  ⟨0, 0⟩

def hear (h : Hearing) : Weight → Hearing
  | .amount n => ⟨h.closed, h.group + n⟩
  | .hundred => ⟨h.closed, 100 * h.group⟩
  | .scale unit => ⟨h.closed + unit * h.group, 0⟩
  | .trillion => ⟨1_000_000_000_000 * (h.closed + h.group), 0⟩

def value (h : Hearing) : Nat :=
  h.closed + h.group

end Hearing

namespace Lexicon

section Meaning

variable (lexicon : Lexicon)

def amounts : List (String × Nat) :=
  lexicon.units.toList.zipIdx ++ lexicon.teens.toList.zipIdx 10 ++
    (lexicon.tens.toList.zipIdx.map fun (w, i) => (w, 10 * i)) ++
    (lexicon.hundreds.toList.zipIdx.map fun (w, i) => (w, 100 * i))

/-- What a word stands for in a numeral. The second word in the name of a hundred makes hundreds,
and a word that is not known adds nothing. -/
def weight (w : String) : Weight :=
  if w = lexicon.trillion then .trillion
  else if w = lexicon.billion then .scale 1_000_000_000
  else if w = lexicon.million then .scale 1_000_000
  else if w = lexicon.thousand then .scale 1_000
  else if lexicon.hundreds.any fun name => (' ' :: w.toList).isSuffixOf name.toList then .hundred
  else .amount ((lexicon.amounts.lookup w).getD 0)

def weights (s : String) : List Weight :=
  (s.toList.splitOn ' ').map fun w => lexicon.weight (String.ofList w)

def heard (s : String) : Nat :=
  ((lexicon.weights s).foldl Hearing.hear Hearing.start).value

/-- Whether each entry of a lexicon is heard as what it is said for. The entry of a hundred is one
word, or the word for a unit and the word for a hundred. -/
structure IsClear : Prop where
  units : ∀ n, (h : n < 10) → lexicon.weights lexicon.units[n] = [.amount n]
  teens : ∀ n, (h : n < 10) → lexicon.weights lexicon.teens[n] = [.amount (10 + n)]
  tens : ∀ n, (h : n < 10) → lexicon.weights lexicon.tens[n] = [.amount (10 * n)]
  hundreds : ∀ n, (h : n < 10) → lexicon.weights lexicon.hundreds[n] = [.amount (100 * n)] ∨
    lexicon.weights lexicon.hundreds[n] = [.amount n, .hundred]
  thousand : lexicon.weights lexicon.thousand = [.scale 1_000]
  million : lexicon.weights lexicon.million = [.scale 1_000_000]
  billion : lexicon.weights lexicon.billion = [.scale 1_000_000_000]
  trillion : lexicon.weights lexicon.trillion = [.trillion]
  conjunction : lexicon.weights lexicon.conjunction = [.amount 0]
  zero : lexicon.weights lexicon.zero = [.amount 0]

def spokenWords (s : String) : List String :=
  (s.toList.splitOn ' ').map String.ofList

def listen (h : Hearing) (ws : List String) : Hearing :=
  (ws.flatMap lexicon.weights).foldl Hearing.hear h

end Meaning

variable {lexicon : Lexicon}

@[simp] theorem listen_nil (h : Hearing) : lexicon.listen h [] = h :=
  rfl

theorem listen_cons (h : Hearing) (w : String) (ws : List String) :
    lexicon.listen h (w :: ws) = lexicon.listen ((lexicon.weights w).foldl Hearing.hear h) ws := by
  rw [listen, List.flatMap_cons, List.foldl_append]
  rfl

theorem listen_append (h : Hearing) (ws vs : List String) :
    lexicon.listen h (ws ++ vs) = lexicon.listen (lexicon.listen h ws) vs := by
  rw [listen, List.flatMap_append, List.foldl_append]
  rfl

theorem spokenWords_append_space (s t : String) :
    spokenWords (s ++ " " ++ t) = spokenWords s ++ spokenWords t := by
  have htext : (s ++ " " ++ t).toList = s.toList ++ ' ' :: t.toList := by simp
  rw [spokenWords, htext, List.splitOn_append_cons_self, List.map_append]
  rfl

theorem spokenWords_intercalate {ws : List String} (hne : ws ≠ []) :
    spokenWords (" ".intercalate ws) = ws.flatMap spokenWords := by
  -- Whatever spaces the entries themselves hold, the words of a joined text are those of its
  -- entries in order.
  induction ws with
  | nil => exact absurd rfl hne
  | cons w ws ih =>
      cases ws with
      | nil => simp
      | cons v ws =>
          rw [String.intercalate_cons_cons, spokenWords_append_space, ih (by simp)]
          rfl

theorem weights_eq (s : String) : lexicon.weights s = (spokenWords s).map lexicon.weight := by
  rw [weights, spokenWords, List.map_map]
  rfl

theorem weights_intercalate {ws : List String} (hne : ws ≠ []) :
    lexicon.weights (" ".intercalate ws) = ws.flatMap lexicon.weights := by
  rw [weights_eq, spokenWords_intercalate hne, List.map_flatMap]
  exact congrArg (ws.flatMap ·) (funext fun w => (weights_eq w).symm)

namespace IsClear

variable (hclear : lexicon.IsClear)

include hclear

theorem listen_conjunction (h : Hearing) (ws : List String) :
    lexicon.listen h (lexicon.conjunction :: ws) = lexicon.listen h ws := by
  rw [listen_cons, hclear.conjunction]
  rfl

theorem listen_intersperse (h : Hearing) (ws : List String) :
    lexicon.listen h (ws.intersperse lexicon.conjunction) = lexicon.listen h ws := by
  induction ws generalizing h with
  | nil => rfl
  | cons w ws ih =>
      cases ws with
      | nil => rfl
      | cons v ws =>
          rw [List.intersperse_cons_cons, listen_cons, hclear.listen_conjunction, ih, ← listen_cons]

theorem listen_intercalate (h : Hearing) (groups : List (List String)) :
    lexicon.listen h ([lexicon.conjunction].intercalate groups) =
      lexicon.listen h groups.flatten := by
  induction groups generalizing h with
  | nil => rfl
  | cons ws groups ih =>
      cases groups with
      | nil => simp
      | cons vs groups =>
          rw [List.intercalate_cons_cons, List.append_assoc, listen_append, List.singleton_append,
            hclear.listen_conjunction, ih, ← listen_append]
          rfl

theorem listen_unit (h : Hearing) {n : Nat} (hn : n < 10) :
    lexicon.listen h [lexicon.units[n]] = ⟨h.closed, h.group + n⟩ := by
  rw [listen_cons, hclear.units n hn]
  rfl

theorem listen_teen (h : Hearing) {n : Nat} (hn : n < 10) :
    lexicon.listen h [lexicon.teens[n]] = ⟨h.closed, h.group + (10 + n)⟩ := by
  rw [listen_cons, hclear.teens n hn]
  rfl

theorem listen_ten (h : Hearing) {n : Nat} (hn : n < 10) :
    lexicon.listen h [lexicon.tens[n]] = ⟨h.closed, h.group + 10 * n⟩ := by
  rw [listen_cons, hclear.tens n hn]
  rfl

theorem listen_hundred (closed : Nat) {n : Nat} (hn : n < 10) :
    lexicon.listen ⟨closed, 0⟩ [lexicon.hundreds[n]] = ⟨closed, 100 * n⟩ := by
  -- The word for a hundred multiplies what the current group holds, so nothing may be in it
  -- before.
  rw [listen_cons]
  rcases hclear.hundreds n hn with h | h <;> rw [h]
  · simp [Hearing.hear]
  · simp [Hearing.hear]

theorem listen_partsBelowHundred (h : Hearing) {n : Nat} (hn : n < 100) :
    lexicon.listen h (lexicon.partsBelowHundred n) = ⟨h.closed, h.group + n⟩ := by
  have hunit := hclear.listen_unit (n := n % 10) ⟨h.closed, h.group + 10 * (n / 10)⟩ (by omega)
  have hten : lexicon.listen h (if n / 10 = 0 then [] else [lexicon.tens[n / 10 % 10]]) =
      ⟨h.closed, h.group + 10 * (n / 10)⟩ := by
    split
    · next hzero => rw [hzero]; rfl
    · rw [hclear.listen_ten h (by omega)]
      congr 3
      omega
  rw [partsBelowHundred]
  split
  · rw [hclear.listen_teen h (by omega)]
    congr 2
    omega
  · rw [listen_append, hten]
    split
    · rw [listen_nil]
      congr 2
      omega
    · rw [hunit]
      congr 1
      change h.group + 10 * (n / 10) + n % 10 = h.group + n
      omega

theorem listen_group (closed : Nat) {n : Nat} (hn : n < 1000) :
    lexicon.listen ⟨closed, 0⟩ (lexicon.group n) = ⟨closed, n⟩ := by
  have hhundred :
      lexicon.listen ⟨closed, 0⟩ (if n / 100 = 0 then [] else [lexicon.hundreds[n / 100 % 10]]) =
      ⟨closed, 100 * (n / 100)⟩ := by
    split
    · next hzero => rw [hzero]; rfl
    · rw [hclear.listen_hundred closed (by omega)]
      congr 2
      omega
  rw [group, hclear.listen_intersperse, partsBelowThousand, listen_append, hhundred,
    hclear.listen_partsBelowHundred _ (by omega)]
  congr 1
  change 100 * (n / 100) + n % 100 = n
  omega

theorem listen_scaledGroup (closed : Nat) {n unit : Nat} {scale : String} (hn : n < 1000)
    (hscale : lexicon.weights scale = [.scale unit]) :
    lexicon.listen ⟨closed, 0⟩ (lexicon.scaledGroup n [scale]).flatten =
      ⟨closed + unit * n, 0⟩ := by
  rw [scaledGroup]
  split
  · next hzero => rw [hzero]; rfl
  · rw [List.flatten_singleton, listen_append, hclear.listen_group closed hn, listen_cons, hscale]
    rfl

theorem listen_lastGroup (closed : Nat) {n : Nat} (hn : n < 1000) :
    lexicon.listen ⟨closed, 0⟩ (lexicon.scaledGroup n []).flatten = ⟨closed, n⟩ := by
  rw [scaledGroup]
  split
  · next hzero => rw [hzero]; rfl
  · rw [List.flatten_singleton, List.append_nil, hclear.listen_group closed hn]

theorem value_listen_groups (closed : Nat) {n : Nat} (hn : n < 1_000_000_000_000) :
    (lexicon.listen ⟨closed, 0⟩ (lexicon.groups n).flatten).value = closed + n := by
  simp only [groups, List.flatten_append, listen_append]
  rw [hclear.listen_scaledGroup _ (by omega) hclear.billion,
    hclear.listen_scaledGroup _ (by omega) hclear.million,
    hclear.listen_scaledGroup _ (by omega) hclear.thousand, hclear.listen_lastGroup _ (by omega)]
  change closed + 1_000_000_000 * (n / 1_000_000_000 % 1000) + 1_000_000 * (n / 1_000_000 % 1000) +
    1_000 * (n / 1_000 % 1000) + n % 1000 = closed + n
  omega

theorem value_listen_positiveWords (n : Nat) :
    (lexicon.listen .start (lexicon.positiveWords n)).value = n := by
  -- The induction is on the number: what stands before the word for a trillion is a smaller number,
  -- heard from the start.
  induction n using Nat.strongRecOn with
  | ind n ih =>
      rw [positiveWords]
      split
      · next hn =>
          rw [hclear.listen_intercalate, Hearing.start, hclear.value_listen_groups 0 hn,
            Nat.zero_add]
      · next hn =>
          have hcount := ih (n / 1_000_000_000_000) (by omega)
          have htrillion : lexicon.listen .start
              (lexicon.positiveWords (n / 1_000_000_000_000) ++ [lexicon.trillion]) =
              ⟨1_000_000_000_000 * (n / 1_000_000_000_000), 0⟩ := by
            rw [listen_append, listen_cons, hclear.trillion]
            change (⟨1_000_000_000_000 * Hearing.value _, 0⟩ : Hearing) = _
            rw [hcount]
          rw [hclear.listen_intercalate, List.flatten_cons, listen_append, htrillion,
            hclear.value_listen_groups _ (by omega)]
          omega

theorem value_listen_wholeWords (n : Nat) :
    (lexicon.listen .start (lexicon.wholeWords n)).value = n := by
  rw [wholeWords]
  split
  · next hzero =>
      rw [listen_cons, hclear.zero, hzero]
      rfl
  · exact hclear.value_listen_positiveWords n

theorem wholeWords_ne_nil (n : Nat) : lexicon.wholeWords n ≠ [] := by
  rw [wholeWords]
  split
  · simp
  · next hn =>
      intro hnil
      have hvalue := hclear.value_listen_positiveWords n
      rw [hnil] at hvalue
      exact hn hvalue.symm

end IsClear

end Lexicon

theorem Language.isClear_lexicon (language : Language) : language.lexicon.IsClear := by
  cases language with
  | persian => constructor <;> decide +kernel
  | english => constructor <;> decide +kernel

/-- The words of a number in a language are heard as that number, so no two numbers have the same
words. -/
theorem heard_whole (language : Language) :
    (∀ n, language.lexicon.heard (language.lexicon.whole n) = n) ∧
      Function.Injective language.lexicon.whole := by
  have hheard : ∀ n, language.lexicon.heard (language.lexicon.whole n) = n := by
    intro n
    have hclear := language.isClear_lexicon
    rw [Lexicon.heard, Lexicon.whole, Lexicon.weights_intercalate (hclear.wholeWords_ne_nil n)]
    exact hclear.value_listen_wholeWords n
  refine ⟨hheard, ?_⟩
  intro m n hmn
  rw [← hheard m, hmn, hheard n]

/-- Scale words that repeat, and a count of trillions in two groups. -/
example : Lexicon.english.heard "one trillion and one trillion and one" =
    1_000_000_000_001_000_000_000_001 := by
  decide +kernel

end TalkingCalculator
