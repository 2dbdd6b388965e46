import Mathlib.Data.List.Nodup
import TalkingCalculator.Proofs.HeardNumerals
import TalkingCalculator.Proofs.NumberWords
import TalkingCalculator.Text.Blank

/-!
# The tables of number words

The words of numbers are built again here, group by group from the largest scale down, by a builder
that fails as soon as a group is not between 1 and 999, an index leaves its table, or the entry of
zero would be said. It never fails, whatever the number. So all words come from the tables, and each
scale is named when its group is not zero.
-/

namespace TalkingCalculator

open Text

namespace Lexicon

/-! ### A builder that checks each access -/

/-- The entry of a table, unless the index is out of range or the entry is empty. -/
def wordAt? (table : Vector String 10) (index : Nat) : Option String :=
  table[index]?.filter (· ≠ "")

/-- What is said of a digit, which is nothing for zero. -/
def digitPart? (table : Vector String 10) (digit : Nat) : Option (List String) :=
  if digit = 0 then some [] else (wordAt? table digit).map ([·])

/-- A power of a thousand that has a name. -/
structure Scale where
  unit : Nat
  word : String
  one_lt : 1 < unit

section Builder

variable (lexicon : Lexicon)

def checkedBelowHundred? (n : Nat) : Option (List String) :=
  if 10 ≤ n ∧ n < 20 then (wordAt? lexicon.teens (n - 10)).map ([·])
  else do
    let tens ← digitPart? lexicon.tens (n / 10)
    let units ← digitPart? lexicon.units (n % 10)
    return tens ++ units

/-- The words of a group of three digits, which fails for zero and from a thousand on. -/
def checkedGroup? (n : Nat) : Option (List String) :=
  if 1 ≤ n ∧ n < 1000 then do
    let hundreds ← digitPart? lexicon.hundreds (n / 100)
    let rest ← lexicon.checkedBelowHundred? (n % 100)
    return (hundreds ++ rest).intersperse lexicon.conjunction
  else none

/-- The scales from the largest down. -/
def scales : List Scale :=
  [⟨1_000_000_000_000, lexicon.trillion, by decide⟩, ⟨1_000_000_000, lexicon.billion, by decide⟩,
    ⟨1_000_000, lexicon.million, by decide⟩, ⟨1_000, lexicon.thousand, by decide⟩]

theorem scales_eq_cons :
    lexicon.scales = ⟨1_000_000_000_000, lexicon.trillion, by decide⟩ :: lexicon.scales.tail :=
  rfl

/-- The parts that name what is left of a number. The count of a scale is a group when it is below a
thousand, and a number with scales of its own when it is not. -/
def checkedParts? (rest : Nat) : List Scale → Option (List (List String))
  | [] => if rest = 0 then some [] else (lexicon.checkedGroup? rest).map ([·])
  | scale :: scales =>
      if scale.unit ≤ rest then
        let count? :=
          if rest / scale.unit < 1000 then lexicon.checkedGroup? (rest / scale.unit)
          else (checkedParts? (rest / scale.unit)
            lexicon.scales).map [lexicon.conjunction].intercalate
        count?.bind fun count =>
          (checkedParts? (rest % scale.unit) scales).map fun later =>
            (count ++ [scale.word]) :: later
      else checkedParts? rest scales
termination_by scales => (rest, scales.length)
decreasing_by
  · have hone := scale.one_lt
    have hpos : 0 < rest := by omega
    exact Prod.Lex.left _ _ (Nat.div_lt_self hpos hone)
  · have hone := scale.one_lt
    have hlt : rest % scale.unit < rest :=
      Nat.lt_of_lt_of_le (Nat.mod_lt rest (by omega)) (by omega)
    exact Prod.Lex.left _ _ hlt
  · exact Prod.Lex.right _ (Nat.lt_succ_self _)

/-- The words of a number, if they can be built from the entries of the tables that are not
empty. -/
def checkedWords? (n : Nat) : Option (List String) :=
  if n = 0 then some [lexicon.zero]
  else (lexicon.checkedParts? n lexicon.scales).map [lexicon.conjunction].intercalate

end Builder

variable {lexicon : Lexicon}

theorem wordAt?_eq {table : Vector String 10} {index : Nat} (h : index < 10)
    (hne : table[index] ≠ "") :
    wordAt? table index = some table[index] := by
  rw [wordAt?, Vector.getElem?_eq_getElem h, Option.filter_some, if_pos (decide_eq_true hne)]

theorem digitPart?_eq {table : Vector String 10} (hne : ∀ n, (h : n < 10) → n ≠ 0 → table[n] ≠ "")
    {digit : Nat} (h : digit < 10) :
    digitPart? table digit = some (if digit = 0 then [] else [table[digit]]) := by
  rw [digitPart?]
  split
  · rfl
  · next hpos => rw [wordAt?_eq h (hne digit h hpos), Option.map_some]

theorem positiveWords_eq_group {n : Nat} (hpos : 0 < n) (hn : n < 1000) :
    lexicon.positiveWords n = lexicon.group n := by
  have hbillions : n / 1_000_000_000 % 1000 = 0 := by omega
  have hmillions : n / 1_000_000 % 1000 = 0 := by omega
  have hthousands : n / 1_000 % 1000 = 0 := by omega
  rw [positiveWords, if_pos (by omega), groups, hbillions, hmillions, hthousands,
    Nat.mod_eq_of_lt hn]
  simp [scaledGroup, Nat.pos_iff_ne_zero.1 hpos, List.intercalate]

namespace NumberWords

variable (hwords : lexicon.NumberWords (· ≠ ""))

include hwords

theorem checkedBelowHundred?_eq {n : Nat} (hn : n < 100) :
    lexicon.checkedBelowHundred? n = some (lexicon.partsBelowHundred n) := by
  rw [checkedBelowHundred?, Lexicon.partsBelowHundred]
  split
  · next hteen =>
      have hindex : n % 10 = n - 10 := by omega
      simp only [wordAt?_eq (by omega) (hwords.teens (n - 10) (by omega)), Option.map_some, hindex]
  · have hten : n / 10 < 10 := by omega
    rw [digitPart?_eq hwords.tens hten, digitPart?_eq hwords.units (Nat.mod_lt n (by decide))]
    simp only [Option.bind_eq_bind, Option.bind_some, Nat.mod_eq_of_lt hten, Option.pure_def]

theorem checkedGroup?_eq {n : Nat} (hpos : 0 < n) (hn : n < 1000) :
    lexicon.checkedGroup? n = some (lexicon.group n) := by
  have hhundred : n / 100 < 10 := by omega
  rw [checkedGroup?, if_pos ⟨hpos, hn⟩, digitPart?_eq hwords.hundreds hhundred,
    hwords.checkedBelowHundred?_eq (by omega)]
  simp only [Option.bind_eq_bind, Option.bind_some, Option.pure_def, Lexicon.group,
    Lexicon.partsBelowThousand, Nat.mod_eq_of_lt hhundred]

theorem checkedParts?_nil {rest : Nat} (hrest : rest < 1000) :
    lexicon.checkedParts? rest [] = some (lexicon.scaledGroup rest []) := by
  rw [checkedParts?, Lexicon.scaledGroup]
  split
  · rfl
  · next hpos =>
      rw [hwords.checkedGroup?_eq (Nat.pos_of_ne_zero hpos) hrest, List.append_nil]
      rfl

theorem checkedParts?_cons {rest : Nat} {scale : Scale} {scales : List Scale}
    (hcount : rest / scale.unit < 1000) :
    lexicon.checkedParts? rest (scale :: scales) =
      (lexicon.checkedParts? (rest % scale.unit) scales).map
        (lexicon.scaledGroup (rest / scale.unit) [scale.word] ++ ·) := by
  have hunit : 0 < scale.unit := Nat.lt_of_succ_lt scale.one_lt
  rw [checkedParts?]
  by_cases hle : scale.unit ≤ rest
  · have hpos : 0 < rest / scale.unit := Nat.div_pos hle hunit
    rw [if_pos hle, if_pos hcount, hwords.checkedGroup?_eq hpos hcount, Lexicon.scaledGroup,
      if_neg (Nat.pos_iff_ne_zero.1 hpos)]
    rfl
  · have hlt := Nat.lt_of_not_le hle
    rw [if_neg hle, Nat.div_eq_of_lt hlt, Nat.mod_eq_of_lt hlt, Lexicon.scaledGroup, if_pos rfl]
    exact Option.map_id'.symm

theorem checkedParts?_groups {n : Nat} (hn : n < 1_000_000_000_000) :
    lexicon.checkedParts? n lexicon.scales.tail = some (lexicon.groups n) := by
  have hbillions : n / 1_000_000_000 % 1000 = n / 1_000_000_000 := by omega
  have hmillions : n / 1_000_000 % 1000 = n % 1_000_000_000 / 1_000_000 := by omega
  have hthousands : n / 1_000 % 1000 = n % 1_000_000_000 % 1_000_000 / 1_000 := by omega
  have hrest : n % 1000 = n % 1_000_000_000 % 1_000_000 % 1_000 := by omega
  rw [Lexicon.scales, List.tail_cons, hwords.checkedParts?_cons (by dsimp only; omega),
    hwords.checkedParts?_cons (by dsimp only; omega),
    hwords.checkedParts?_cons (by dsimp only; omega),
    hwords.checkedParts?_nil (by dsimp only; omega), Lexicon.groups, hbillions,
    hmillions, hthousands, hrest]
  simp only [Option.map_some, List.append_assoc]

theorem checkedParts?_eq {n : Nat} (hpos : 0 < n) :
    (lexicon.checkedParts? n lexicon.scales).map [lexicon.conjunction].intercalate =
      some (lexicon.positiveWords n) := by
  -- The induction is on the number: the count of trillions is smaller, and has words of its own
  -- from a thousand on.
  induction n using Nat.strongRecOn with
  | ind n ih =>
      rw [scales_eq_cons, checkedParts?, Lexicon.positiveWords]
      dsimp only
      by_cases hn : n < 1_000_000_000_000
      · rw [if_neg (Nat.not_le_of_lt hn), if_pos hn, hwords.checkedParts?_groups hn]
        rfl
      · have hcount :
            (if n / 1_000_000_000_000 < 1000 then lexicon.checkedGroup? (n / 1_000_000_000_000)
            else (lexicon.checkedParts?
              (n / 1_000_000_000_000) lexicon.scales).map [lexicon.conjunction].intercalate) =
            some (lexicon.positiveWords (n / 1_000_000_000_000)) := by
          split
          · next hlt =>
              rw [hwords.checkedGroup?_eq (by omega) hlt, positiveWords_eq_group (by omega) hlt]
          · exact ih _ (by omega) (by omega)
        rw [if_pos (Nat.le_of_not_lt hn), if_neg hn, hcount,
          hwords.checkedParts?_groups (Nat.mod_lt n (by decide))]
        rfl

theorem checkedWords?_eq (n : Nat) : lexicon.checkedWords? n = some (lexicon.wholeWords n) := by
  rw [checkedWords?, Lexicon.wholeWords]
  split
  · rfl
  · next hn => exact hwords.checkedParts?_eq (Nat.pos_of_ne_zero hn)

end NumberWords

/-! ### The entries that are used -/

/-- Whether a text is one word: something, and nothing blank in it. -/
def IsWord (w : String) : Prop :=
  w ≠ "" ∧ w.toList.any isBlank = false

instance (w : String) : Decidable (IsWord w) :=
  inferInstanceAs (Decidable (_ ∧ _))

section Entries

variable (lexicon : Lexicon)

/-- The names of the scales from the largest down. -/
def scaleWords : List String :=
  lexicon.scales.map Scale.word

/-- The entries of the tables that numbers are built from, without those of zero in the tables of
units, tens and hundreds. -/
def numberEntries : List String :=
  lexicon.units.toList.tail ++ lexicon.teens.toList ++ lexicon.tens.toList.tail ++
    lexicon.hundreds.toList.tail ++
    lexicon.scaleWords ++ [lexicon.conjunction, lexicon.zero]

end Entries

theorem getElem_mem_tail {table : Vector String 10} {n : Nat} (h : n < 10) (hpos : n ≠ 0) :
    table[n] ∈ table.toList.tail := by
  obtain ⟨m, rfl⟩ := Nat.exists_eq_succ_of_ne_zero hpos
  have hindex : m < table.toList.tail.length := by
    rw [List.length_tail, Vector.length_toList]
    omega
  have hentry : table.toList.tail[m] = table[m + 1] := by
    rw [List.getElem_tail, Vector.getElem_toList]
  exact hentry ▸ List.getElem_mem hindex

theorem numberWords_mem_numberEntries (lexicon : Lexicon) :
    lexicon.NumberWords (· ∈ lexicon.numberEntries) where
  units n h hpos := by simp [numberEntries, getElem_mem_tail h hpos]
  teens n h := by simp [numberEntries, Vector.getElem_mem h]
  tens n h hpos := by simp [numberEntries, getElem_mem_tail h hpos]
  hundreds n h hpos := by simp [numberEntries, getElem_mem_tail h hpos]
  scales w hw := by
    have hscale : w ∈ lexicon.scaleWords := hw
    simp [numberEntries, hscale]
  conjunction := by simp [numberEntries]
  zero := by simp [numberEntries]

theorem ne_empty_of_isWord {entry : String} (h : ∀ w ∈ spokenWords entry, IsWord w) :
    entry ≠ "" := by
  rintro rfl
  exact (h "" (by decide +kernel)).1 rfl

theorem intercalate_spokenWords (s : String) : " ".intercalate (spokenWords s) = s := by
  have hwords : (spokenWords s).map String.toList = s.toList.splitOn ' ' := by
    rw [spokenWords, List.map_map]
    exact List.map_id'' (fun cs => String.toList_ofList) _
  rw [← String.toList_inj, String.toList_intercalate, hwords]
  exact List.intercalate_splitOn ' '

/-! ### The scales that are named -/

/-- The scale words among the words of some entries. -/
def scalesNamed (lexicon : Lexicon) (ws : List String) : List String :=
  (ws.flatMap spokenWords).filter (· ∈ lexicon.scaleWords)

/-- Whether the names of the scales are single words, which differ and which no other entry uses. -/
structure HasDistinctScales (lexicon : Lexicon) : Prop where
  words : ∀ w ∈ lexicon.scaleWords, spokenWords w = [w]
  nodup : lexicon.scaleWords.Nodup
  others : lexicon.GroupWords fun entry => ∀ w ∈ spokenWords entry, w ∉ lexicon.scaleWords
  zero : ∀ w ∈ spokenWords lexicon.zero, w ∉ lexicon.scaleWords

@[simp] theorem scalesNamed_append (ws vs : List String) :
    lexicon.scalesNamed (ws ++ vs) = lexicon.scalesNamed ws ++ lexicon.scalesNamed vs := by
  rw [scalesNamed, List.flatMap_append, List.filter_append]
  rfl

theorem scalesNamed_eq_nil {ws : List String}
    (h : ∀ entry ∈ ws, ∀ w ∈ spokenWords entry, w ∉ lexicon.scaleWords) :
    lexicon.scalesNamed ws = [] := by
  rw [scalesNamed, List.filter_eq_nil_iff]
  intro w hw
  obtain ⟨entry, hentry, hw⟩ := List.mem_flatMap.1 hw
  simpa using h entry hentry w hw

theorem map_word_filter (n : Nat) (scales : List Scale) :
    (scales.filter fun scale => n / scale.unit % 1000 ≠ 0).map Scale.word =
      scales.flatMap fun scale => if n / scale.unit % 1000 = 0 then [] else [scale.word] := by
  induction scales with
  | nil => rfl
  | cons scale scales ih =>
      rw [List.flatMap_cons, ← ih, List.filter_cons]
      by_cases hgroup : n / scale.unit % 1000 = 0 <;> simp [hgroup]

namespace HasDistinctScales

variable (hscales : lexicon.HasDistinctScales)

include hscales

theorem scalesNamed_scale {w : String} (hw : w ∈ lexicon.scaleWords) :
    lexicon.scalesNamed [w] = [w] := by
  rw [scalesNamed, List.flatMap_singleton, hscales.words w hw, List.filter_cons,
    if_pos (decide_eq_true hw), List.filter_nil]

theorem scalesNamed_group {n : Nat} (hn : n < 1000) : lexicon.scalesNamed (lexicon.group n) = [] :=
  scalesNamed_eq_nil (hscales.others.group hn)

theorem scalesNamed_scaledGroup {n : Nat} {scale : List String} (hn : n < 1000)
    (hscale : lexicon.scalesNamed scale = scale) :
    (lexicon.scaledGroup n scale).flatMap lexicon.scalesNamed = if n = 0 then [] else scale := by
  rw [scaledGroup]
  split
  · rfl
  · rw [List.flatMap_singleton, scalesNamed_append, hscales.scalesNamed_group hn, hscale,
      List.nil_append]

theorem scalesNamed_intercalate (groups : List (List String)) :
    lexicon.scalesNamed ([lexicon.conjunction].intercalate groups) =
      groups.flatMap lexicon.scalesNamed := by
  have hconjunction : lexicon.scalesNamed [lexicon.conjunction] = [] :=
    scalesNamed_eq_nil (List.forall_mem_singleton.2 hscales.others.conjunction)
  induction groups with
  | nil => rfl
  | cons ws groups ih =>
      cases groups with
      | nil => simp
      | cons vs groups =>
          rw [List.intercalate_cons_cons, scalesNamed_append, scalesNamed_append, hconjunction, ih,
            List.append_nil]
          rfl

theorem scalesNamed_groups (n : Nat) :
    (lexicon.groups n).flatMap lexicon.scalesNamed =
      lexicon.scales.tail.flatMap fun scale => if n / scale.unit % 1000 = 0 then
        [] else [scale.word] := by
  have hgroup {scale : String} (hscale : scale ∈ lexicon.scaleWords) (m : Nat) :
      (lexicon.scaledGroup (m % 1000) [scale]).flatMap lexicon.scalesNamed = if m % 1000 = 0 then
        [] else [scale] :=
    hscales.scalesNamed_scaledGroup (Nat.mod_lt m (by decide)) (hscales.scalesNamed_scale hscale)
  have hlast : (lexicon.scaledGroup (n % 1000) []).flatMap lexicon.scalesNamed = [] := by
    rw [hscales.scalesNamed_scaledGroup (Nat.mod_lt n (by decide)) rfl, ite_self]
  simp only [groups, List.flatMap_append]
  rw [hgroup (by simp [scaleWords, scales]), hgroup (by simp [scaleWords, scales]),
    hgroup (by simp [scaleWords, scales]), hlast]
  simp only [scales, List.tail_cons, List.flatMap_cons, List.flatMap_nil, List.append_assoc]

theorem scalesNamed_wholeWords {n : Nat} (hn : n < 1_000_000_000_000_000) :
    lexicon.scalesNamed (lexicon.wholeWords n) =
      lexicon.scales.flatMap fun scale => if n / scale.unit % 1000 = 0 then
        [] else [scale.word] := by
  -- Below a thousand trillions the count of trillions is a group like the others.
  rw [scales_eq_cons, List.flatMap_cons, wholeWords]
  dsimp only
  split
  · next hzero =>
      rw [hzero, scalesNamed_eq_nil (List.forall_mem_singleton.2 hscales.zero)]
      simp [scales]
  · rw [positiveWords]
    split
    · next hlt =>
        have hcount : n / 1_000_000_000_000 % 1000 = 0 := by omega
        rw [hscales.scalesNamed_intercalate, hscales.scalesNamed_groups, if_pos hcount,
          List.nil_append]
    · next hge =>
        have hcount : n / 1_000_000_000_000 % 1000 ≠ 0 := by omega
        have hbillions : n % 1_000_000_000_000 / 1_000_000_000 % 1000 =
            n / 1_000_000_000 % 1000 := by omega
        have hmillions : n % 1_000_000_000_000 / 1_000_000 % 1000 = n / 1_000_000 % 1000 := by omega
        have hthousands : n % 1_000_000_000_000 / 1_000 % 1000 = n / 1_000 % 1000 := by omega
        rw [hscales.scalesNamed_intercalate, List.flatMap_cons, scalesNamed_append,
          positiveWords_eq_group (by omega) (by omega), hscales.scalesNamed_group (by omega),
          hscales.scalesNamed_scale (by simp [scaleWords, scales]), List.nil_append,
          hscales.scalesNamed_groups, if_neg hcount]
        simp only [scales, List.tail_cons, List.flatMap_cons, List.flatMap_nil, hbillions,
          hmillions, hthousands]

theorem count_word {scale : Scale} (hmem : scale ∈ lexicon.scales) (p : Scale → Bool) :
    ((lexicon.scales.filter p).map Scale.word).count scale.word = if p scale then 1 else 0 := by
  -- The names of the scales that are chosen are counted once each, since they differ.
  have hnodup : ((lexicon.scales.filter p).map Scale.word).Nodup :=
    hscales.nodup.sublist (List.filter_sublist.map Scale.word)
  have hchosen : scale.word ∈ (lexicon.scales.filter p).map Scale.word ↔ p scale = true := by
    rw [List.mem_map]
    constructor
    · rintro ⟨other, hother, hword⟩
      obtain ⟨hother, hp⟩ := List.mem_filter.1 hother
      obtain rfl := List.inj_on_of_nodup_map hscales.nodup hother hmem hword
      exact hp
    · exact fun hp => ⟨scale, List.mem_filter.2 ⟨hmem, hp⟩, rfl⟩
  simp only [hnodup.count, hchosen]

end HasDistinctScales

end Lexicon

theorem Language.numberWords_isWord (language : Language) :
    language.lexicon.NumberWords fun entry => ∀ w ∈ Lexicon.spokenWords entry,
      Lexicon.IsWord w := by
  cases language with
  | persian => constructor <;> decide +kernel
  | english => constructor <;> decide +kernel

theorem Language.hasDistinctScales_lexicon (language : Language) :
    language.lexicon.HasDistinctScales := by
  cases language with
  | persian =>
      exact ⟨by decide +kernel, by decide +kernel, by constructor <;> decide +kernel,
        by decide +kernel⟩
  | english =>
      exact ⟨by decide +kernel, by decide +kernel, by constructor <;> decide +kernel,
        by decide +kernel⟩

/-- The words of a number never leave the tables of its language: the builder that fails at an
access out of range and at an empty entry gives them. What is said is single words with one space
between them, and below a thousand trillions each scale is named once, in descending order, when its
group is not zero. -/
theorem words_stay_in_tables (language : Language) (n : Nat) :
    language.lexicon.checkedWords? n = some (language.lexicon.wholeWords n) ∧
      " ".intercalate (Lexicon.spokenWords (language.lexicon.whole n)) = language.lexicon.whole n ∧
      (∀ w ∈ Lexicon.spokenWords (language.lexicon.whole n),
        Lexicon.IsWord w ∧ ∃ entry ∈ language.lexicon.numberEntries,
          w ∈ Lexicon.spokenWords entry) ∧
      (n < 1_000_000_000_000_000 →
        (∀ scale ∈ language.lexicon.scales,
          (Lexicon.spokenWords (language.lexicon.whole n)).count scale.word =
            if n / scale.unit % 1000 = 0 then 0 else 1) ∧
          (Lexicon.spokenWords (language.lexicon.whole n)).filter
            (· ∈ language.lexicon.scaleWords) =
            (language.lexicon.scales.filter fun scale =>
              n / scale.unit % 1000 ≠ 0).map Lexicon.Scale.word) := by
  have hwords := language.numberWords_isWord
  have hscales := language.hasDistinctScales_lexicon
  have hspoken : Lexicon.spokenWords (language.lexicon.whole n) =
      (language.lexicon.wholeWords n).flatMap Lexicon.spokenWords :=
    Lexicon.spokenWords_intercalate (language.isClear_lexicon.wholeWords_ne_nil n)
  refine ⟨?_, Lexicon.intercalate_spokenWords _, ?_, ?_⟩
  · have hne : language.lexicon.NumberWords (· ≠ "") :=
      hwords.imp fun _ => Lexicon.ne_empty_of_isWord
    exact hne.checkedWords?_eq n
  · intro w hw
    rw [hspoken] at hw
    obtain ⟨entry, hentry, hw⟩ := List.mem_flatMap.1 hw
    exact ⟨hwords.wholeWords n entry hentry w hw, entry,
      language.lexicon.numberWords_mem_numberEntries.wholeWords n entry hentry, hw⟩
  · intro hn
    have hnamed :
        (Lexicon.spokenWords (language.lexicon.whole n)).filter (· ∈ language.lexicon.scaleWords) =
        (language.lexicon.scales.filter fun scale =>
          n / scale.unit % 1000 ≠ 0).map Lexicon.Scale.word := by
      rw [hspoken, Lexicon.map_word_filter]
      exact hscales.scalesNamed_wholeWords hn
    refine ⟨fun scale hscale => ?_, hnamed⟩
    have hword : scale.word ∈ language.lexicon.scaleWords := List.mem_map_of_mem hscale
    rw [← List.count_filter (p := (· ∈ language.lexicon.scaleWords)) (decide_eq_true hword), hnamed,
      hscales.count_word hscale]
    simp only [ne_eq, decide_not, Bool.not_eq_true', decide_eq_false_iff_not, ite_not]

theorem words_stay_in_tables_apart :
    1_000_000_001_023 < 1_000_000_000_000_000 ∧
      (Lexicon.spokenWords (Lexicon.english.whole 1_000_000_001_023)).filter
        (· ∈ Lexicon.english.scaleWords) =
        ["trillion", "thousand"] := by
  have hbelow : 1_000_000_001_023 < 1_000_000_000_000_000 := by decide
  obtain ⟨-, -, -, hscales⟩ := words_stay_in_tables .english 1_000_000_001_023
  exact ⟨hbelow, (hscales hbelow).2⟩

end TalkingCalculator
