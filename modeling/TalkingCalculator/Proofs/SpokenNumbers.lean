import TalkingCalculator.Proofs.ContinuedResults
import TalkingCalculator.Proofs.EchoedTexts
import TalkingCalculator.Proofs.HeardNumerals
import TalkingCalculator.Proofs.NumberWords
import TalkingCalculator.Proofs.PlainDecimals

/-!
# Numbers taken down

What is said of a finite number can be taken down as the text of the number. A number with an
exponent is echoed. Otherwise the words are those of a whole number, perhaps after the word for a
minus, and of the digits after the word for the point.
-/

namespace TalkingCalculator

open Number

namespace Lexicon

section Dictation

variable (lexicon : Lexicon)

def wholeNamed (ws : List String) : Nat :=
  ((ws.map lexicon.weight).foldl Hearing.hear Hearing.start).value

def digitNamed (w : String) : Char :=
  (lexicon.digits.toList.idxOf w).digitChar

/-- What is taken down of words without a sign. -/
def takenDownUnsigned (ws : List String) : List Char :=
  TalkingCalculator.digits (lexicon.wholeNamed (ws.takeWhile (· ≠ lexicon.point))) ++
    match ws.dropWhile (· ≠ lexicon.point) with
    | [] => []
    | _ :: names => '.' :: names.map lexicon.digitNamed

/-- What is taken down of words, perhaps after the word for a minus. -/
def takenDownWords : List String → List Char
  | [] => []
  | w :: ws =>
    if w = lexicon.negative then
      '-' :: lexicon.takenDownUnsigned ws else lexicon.takenDownUnsigned (w :: ws)

/-- The text of a number that is taken down when it is heard. What has digits in it is an echo. -/
def takenDown (s : String) : String :=
  if s.toList.any Char.isDigit then s else String.ofList (lexicon.takenDownWords (spokenWords s))

/-- Whether a word can stand in a whole number: it is neither the word for the point nor the one for
a minus. -/
def IsNumberWord (w : String) : Prop :=
  w ≠ lexicon.point ∧ w ≠ lexicon.negative ∧ w.toList.any Char.isDigit = false

instance (w : String) : Decidable (lexicon.IsNumberWord w) :=
  inferInstanceAs (Decidable (_ ∧ _ ∧ _))

/-- Whether the words of a lexicon tell the parts of a number apart. -/
structure IsDistinct : Prop where
  numbers : lexicon.NumberWords fun entry => ∀ w ∈ spokenWords entry, lexicon.IsNumberWord w
  digits : ∀ n, (h : n < 10) →
    spokenWords lexicon.digits[n] = [lexicon.digits[n]] ∧ lexicon.IsNumberWord lexicon.digits[n]
  digitNamed : ∀ n, (h : n < 10) → lexicon.digitNamed lexicon.digits[n] = n.digitChar
  weight_digit : ∀ n, (h : n < 10) → lexicon.weight lexicon.digits[n] = .amount n
  keys : ∀ entry ∈ lexicon.keys, entry.1.toList.any Char.isDigit = false
  point : spokenWords lexicon.point = [lexicon.point] ∧ lexicon.point ≠ lexicon.negative ∧
  lexicon.point.toList.any Char.isDigit = false
  negative : spokenWords lexicon.negative = [lexicon.negative] ∧
  lexicon.negative.toList.any Char.isDigit = false

end Dictation

variable {lexicon : Lexicon}

theorem mem_spokenWords {s : String} {c : Char} (hc : c ∈ s.toList) :
    c = ' ' ∨ ∃ w ∈ spokenWords s, c ∈ w.toList := by
  have hjoin : [' '].intercalate (s.toList.splitOn ' ') = s.toList := List.intercalate_splitOn ' '
  rw [← hjoin] at hc
  obtain ⟨piece, hpiece, hc⟩ := List.mem_flatten.1 hc
  rcases mem_of_mem_intersperse hpiece with hpiece | rfl
  · exact .inr ⟨String.ofList piece, List.mem_map_of_mem hpiece, by rwa [String.toList_ofList]⟩
  · exact .inl (List.mem_singleton.1 hc)

theorem takenDown_of_words {s : String}
    (h : ∀ w ∈ spokenWords s, w.toList.any Char.isDigit = false) :
    lexicon.takenDown s = String.ofList (lexicon.takenDownWords (spokenWords s)) := by
  rw [takenDown, if_neg]
  rw [Bool.not_eq_true, List.any_eq_false]
  intro c hc
  rcases mem_spokenWords hc with rfl | ⟨w, hw, hc⟩
  · decide
  · exact List.any_eq_false.1 (h w hw) c hc

/-- What is said of the point and of the digits behind it. -/
def fractionWords (lexicon : Lexicon) : Option (List Char) → List String
  | none => []
  | some ds => lexicon.point :: ds.map fun c => lexicon.readKey (String.singleton c)

theorem readWhole?_digits {n : Nat} (hn : n < 10 ^ 21) :
    lexicon.readWhole? (TalkingCalculator.digits n) = some (lexicon.whole n) := by
  have hdigits : (TalkingCalculator.digits n).all Char.isDigit = true :=
    List.all_eq_true.2 fun c hc => Decimal.isDigit_of_mem_digits hc
  have hlog : n.log2 < 128 := by
    by_cases hzero : n = 0
    · rw [hzero]
      decide
    · exact (Nat.log2_lt hzero).2 (by omega)
  rw [readWhole?, if_neg Nat.toDigits_ne_nil, ofDigits, Nat.ofDigitChars_ten_toDigits,
    if_pos ⟨hdigits, hlog⟩]

theorem readUnsigned?_plainDecimal (p : PlainDecimal) (hp : p.whole < 10 ^ 21) :
    lexicon.readUnsigned? p.text =
      some (" ".intercalate (lexicon.whole p.whole :: lexicon.fractionWords p.fraction)) := by
  have hwhole : ∀ c ∈ TalkingCalculator.digits p.whole, decide (c ≠ '.') = true := by
    intro c hc
    rw [decide_eq_true_eq]
    rintro rfl
    exact absurd (Decimal.isDigit_of_mem_digits hc) (by decide)
  have hpoint : ∀ c ∈ (p.fraction.elim [] ('.' :: ·)).head?, decide (c ≠ '.') = false := by
    cases p.fraction <;> simp
  rw [readUnsigned?, PlainDecimal.text, dropWhile_run hwhole hpoint, takeWhile_run hwhole hpoint]
  have hfraction := p.isDigit
  cases h : p.fraction with
  | none => simp [fractionWords, readWhole?_digits hp]
  | some ds =>
      rw [h, Option.getD_some] at hfraction
      dsimp only [Option.elim_some]
      rw [if_pos (List.all_eq_true.2 hfraction), readWhole?_digits hp]
      rfl

theorem ofList_ne_of_any_isDigit {cs : List Char} {s : String} (hdigit : cs.any Char.isDigit = true)
    (hs : s.toList.any Char.isDigit = false) : String.ofList cs ≠ s := by
  rintro rfl
  rw [String.toList_ofList, hdigit] at hs
  cases hs

theorem isScientific_ofList_iff {cs : List Char} :
    isScientific (String.ofList cs) = true ↔ 'e' ∈ cs := by
  rw [isScientific, String.toList_ofList, List.contains_iff_mem]

theorem readKey_digitChar {n : Nat} (hn : n < 10) :
    lexicon.readKey (String.singleton n.digitChar) = lexicon.digits[n] := by
  match n with
  | 0 | 1 | 2 | 3 | 4 | 5 | 6 | 7 | 8 | 9 => rfl

theorem keyName?_digitChar {n : Nat} (hn : n < 10) :
    lexicon.keyName? (String.ofList [n.digitChar]) = some lexicon.digits[n] := by
  match n with
  | 0 | 1 | 2 | 3 | 4 | 5 | 6 | 7 | 8 | 9 => rfl

namespace IsDistinct

variable (hdistinct : lexicon.IsDistinct)

include hdistinct

theorem keyName?_eq_none {cs : List Char} (hdigit : cs.any Char.isDigit = true)
    (hlength : ∀ c, cs ≠ [c]) :
    lexicon.keyName? (String.ofList cs) = none := by
  unfold keyName?
  split
  · next c hc =>
      rw [String.toList_ofList] at hc
      exact absurd hc (hlength c)
  · rw [List.lookup_eq_none_iff]
    intro entry hentry
    rw [bne_iff_ne]
    exact ofList_ne_of_any_isDigit hdigit (hdistinct.keys entry hentry)

theorem readChars_of_any_isDigit {cs : List Char} (htrim : Text.trim cs = cs)
    (hdigit : cs.any Char.isDigit = true) (hlength : ∀ c, cs ≠ [c]) :
    lexicon.readChars cs =
      if isScientific (String.ofList cs) then String.ofList cs
      else if cs.head? = some '-' then lexicon.negative ++ " " ++ lexicon.readChars cs.tail
      else (lexicon.readUnsigned? cs).getD (String.ofList cs) := by
  cases cs with
  | nil => cases hdigit
  | cons c rest =>
      rw [readChars_of_trim htrim, hdistinct.keyName?_eq_none hdigit hlength, Option.getD_none,
        if_neg (ofList_ne_of_any_isDigit hdigit (by decide)),
          if_neg (ofList_ne_of_any_isDigit hdigit (by decide))]
      simp only [List.head?_cons, Option.some.injEq, List.tail_cons]

theorem readChars_minus (p : PlainDecimal) :
    lexicon.readChars ('-' :: p.text) = lexicon.negative ++ " " ++ lexicon.readChars p.text := by
  obtain ⟨c, cs, htext, hc⟩ := p.exists_text_eq
  have htrim : Text.trim ('-' :: p.text) = '-' :: p.text :=
    Text.trim_of_isVisible
      (List.forall_mem_cons.2 ⟨by decide, fun d hd => PlainDecimal.isVisible_of_mem_text hd⟩)
  have hscientific : ¬ isScientific (String.ofList ('-' :: p.text)) = true := by
    rw [isScientific_ofList_iff, List.mem_cons, not_or]
    exact ⟨by decide, PlainDecimal.not_mem_text (by decide) (by decide)⟩
  rw [hdistinct.readChars_of_any_isDigit htrim (by simp [htext, hc]) (by simp [htext]),
    if_neg hscientific]
  rfl

theorem takenDown_scientific {cs : List Char} (htrim : Text.trim cs = cs)
    (hdigit : ∃ c ∈ cs, c.isDigit = true) (he : 'e' ∈ cs) :
    lexicon.takenDown (lexicon.readChars cs) = String.ofList cs := by
  have hany : cs.any Char.isDigit = true := List.any_eq_true.2 hdigit
  have hlength : ∀ c, cs ≠ [c] := by
    rintro c rfl
    obtain rfl := List.mem_singleton.1 he
    cases hany
  have hread : lexicon.readChars cs = String.ofList cs := by
    rw [hdistinct.readChars_of_any_isDigit htrim hany hlength,
      if_pos (isScientific_ofList_iff.2 he)]
  rw [hread, takenDown, String.toList_ofList, if_pos hany]

theorem readKey_digit {c : Char} (hc : c.isDigit = true) :
    spokenWords (lexicon.readKey (String.singleton c)) = [lexicon.readKey (String.singleton c)] ∧
      lexicon.digitNamed (lexicon.readKey (String.singleton c)) = c ∧
      (lexicon.readKey (String.singleton c)).toList.any Char.isDigit = false := by
  obtain ⟨n, hn, rfl⟩ := Decimal.exists_digitChar hc
  obtain ⟨hwords, -, -, hdigits⟩ := hdistinct.digits n hn
  rw [readKey_digitChar hn]
  exact ⟨hwords, hdistinct.digitNamed n hn, hdigits⟩

theorem spokenWords_fractionWords {fraction : Option (List Char)}
    (h : ∀ c ∈ fraction.getD [], c.isDigit = true) :
    (lexicon.fractionWords fraction).flatMap spokenWords = lexicon.fractionWords fraction := by
  cases fraction with
  | none => rfl
  | some ds =>
      have hnames : ds.flatMap (fun c => spokenWords (lexicon.readKey (String.singleton c))) =
          ds.map fun c => lexicon.readKey (String.singleton c) := by
        rw [List.map_eq_flatMap]
        exact List.flatMap_congr fun c hc => (hdistinct.readKey_digit (h c hc)).1
      rw [fractionWords, List.flatMap_cons, hdistinct.point.1, List.flatMap_map, hnames]
      rfl

theorem digitNamed_fraction {ds : List Char} (h : ∀ c ∈ ds, c.isDigit = true) :
    (ds.map fun c => lexicon.readKey (String.singleton c)).map lexicon.digitNamed = ds := by
  rw [List.map_map]
  exact (List.map_congr_left fun c hc => (hdistinct.readKey_digit (h c hc)).2.1).trans
    (List.map_id ds)

theorem any_isDigit_of_mem_fractionWords {fraction : Option (List Char)}
    (h : ∀ c ∈ fraction.getD [], c.isDigit = true) :
    ∀ w ∈ lexicon.fractionWords fraction, w.toList.any Char.isDigit = false := by
  cases fraction with
  | none => simp [fractionWords]
  | some ds =>
      refine List.forall_mem_cons.2 ⟨hdistinct.point.2.2, fun w hw => ?_⟩
      obtain ⟨c, hc, rfl⟩ := List.mem_map.1 hw
      exact (hdistinct.readKey_digit (h c hc)).2.2

theorem takenDownUnsigned_append {ws : List String} (hws : ∀ w ∈ ws, lexicon.IsNumberWord w)
    {fraction : Option (List Char)} (h : ∀ c ∈ fraction.getD [], c.isDigit = true) :
    lexicon.takenDownUnsigned (ws ++ lexicon.fractionWords fraction) =
      TalkingCalculator.digits (lexicon.wholeNamed ws) ++ fraction.elim [] ('.' :: ·) := by
  have hwhole : ∀ w ∈ ws, decide (w ≠ lexicon.point) = true :=
    fun w hw => decide_eq_true (hws w hw).1
  have hpoint : ∀ w ∈ (lexicon.fractionWords fraction).head?,
      decide (w ≠ lexicon.point) = false := by
    cases fraction <;> simp [fractionWords]
  rw [takenDownUnsigned, takeWhile_run hwhole hpoint, dropWhile_run hwhole hpoint]
  cases fraction with
  | none => rfl
  | some ds =>
      exact congrArg (fun names => _ ++ '.' :: names) (hdistinct.digitNamed_fraction h)

variable (hclear : lexicon.IsClear)

include hclear

theorem isNumberWord_whole (n : Nat) :
    ∀ w ∈ spokenWords (lexicon.whole n), lexicon.IsNumberWord w := by
  intro w hw
  rw [whole, spokenWords_intercalate (hclear.wholeWords_ne_nil n)] at hw
  obtain ⟨entry, hentry, hw⟩ := List.mem_flatMap.1 hw
  exact hdistinct.numbers.wholeWords n entry hentry w hw

omit hdistinct in
theorem wholeNamed_whole (n : Nat) : lexicon.wholeNamed (spokenWords (lexicon.whole n)) = n := by
  rw [wholeNamed, ← weights_eq, whole, weights_intercalate (hclear.wholeWords_ne_nil n)]
  exact hclear.value_listen_wholeWords n

theorem exists_words (p : PlainDecimal) (hp : p.whole < 10 ^ 21) :
    ∃ ws, spokenWords (lexicon.readChars p.text) = ws ++ lexicon.fractionWords p.fraction ∧
      ws ≠ [] ∧ (∀ w ∈ ws, lexicon.IsNumberWord w) ∧ lexicon.wholeNamed ws = p.whole := by
  obtain ⟨c, cs, htext, hc⟩ := p.exists_text_eq
  have htrim : Text.trim p.text = p.text :=
    Text.trim_of_isVisible fun d hd => PlainDecimal.isVisible_of_mem_text hd
  by_cases hlength : ∃ d, p.text = [d]
  · obtain ⟨d, hd⟩ := hlength
    obtain ⟨hfraction, hwhole, rfl⟩ := PlainDecimal.eq_of_text_eq_singleton hd
    obtain ⟨hwords, hnumber⟩ := hdistinct.digits p.whole hwhole
    have hread : lexicon.readChars p.text = lexicon.digits[p.whole] := by
      rw [hd] at htrim ⊢
      rw [readChars_of_trim htrim, keyName?_digitChar hwhole, Option.getD_some]
    refine ⟨[lexicon.digits[p.whole]], ?_, by simp, by simpa using hnumber, ?_⟩
    · rw [hread, hwords, hfraction]
      rfl
    · rw [wholeNamed, List.map_singleton, hdistinct.weight_digit p.whole hwhole]
      simp [Hearing.hear, Hearing.start, Hearing.value]
  · have hread :=
      hdistinct.readChars_of_any_isDigit htrim (by simp [htext, hc]) (not_exists.1 hlength)
    have hscientific : ¬ isScientific (String.ofList p.text) = true := fun h =>
      PlainDecimal.not_mem_text (by decide) (by decide) (isScientific_ofList_iff.1 h)
    have hhead : p.text.head? ≠ some '-' := fun hhead =>
      PlainDecimal.not_mem_text (by decide) (by decide) (List.mem_of_mem_head? hhead)
    rw [if_neg hscientific, if_neg hhead, readUnsigned?_plainDecimal p hp,
      Option.getD_some] at hread
    refine ⟨spokenWords (lexicon.whole p.whole), ?_, by simp [spokenWords],
      hdistinct.isNumberWord_whole hclear p.whole, wholeNamed_whole hclear p.whole⟩
    rw [hread, spokenWords_intercalate (by simp), List.flatMap_cons,
      hdistinct.spokenWords_fractionWords p.isDigit]

theorem takenDown_plainDecimal (p : PlainDecimal) (hp : p.whole < 10 ^ 21) (negative : Bool) :
    lexicon.takenDown (lexicon.readChars ((if negative then ['-'] else []) ++ p.text)) =
      String.ofList ((if negative then ['-'] else []) ++ p.text) := by
  obtain ⟨ws, hwords, hne, hnumber, hwhole⟩ := hdistinct.exists_words hclear p hp
  have htaken : lexicon.takenDownUnsigned (ws ++ lexicon.fractionWords p.fraction) = p.text := by
    rw [hdistinct.takenDownUnsigned_append hnumber p.isDigit, hwhole]
    rfl
  have hdigit : ∀ w ∈ ws ++ lexicon.fractionWords p.fraction, w.toList.any Char.isDigit = false :=
    List.forall_mem_append.2 ⟨fun w hw => (hnumber w hw).2.2,
      hdistinct.any_isDigit_of_mem_fractionWords p.isDigit⟩
  cases negative with
  | false =>
      simp only [Bool.false_eq_true, if_false, List.nil_append]
      rw [takenDown_of_words (by rwa [hwords]), hwords]
      obtain ⟨w, ws, rfl⟩ := List.exists_cons_of_ne_nil hne
      rw [List.cons_append, takenDownWords, if_neg (hnumber w List.mem_cons_self).2.1,
        ← List.cons_append, htaken]
  | true =>
      simp only [if_true, List.singleton_append]
      have hsigned : spokenWords (lexicon.readChars ('-' :: p.text)) =
          lexicon.negative :: (ws ++ lexicon.fractionWords p.fraction) := by
        rw [hdistinct.readChars_minus p, spokenWords_append_space, hdistinct.negative.1, hwords]
        rfl
      have hnegative : ∀ w ∈ lexicon.negative :: (ws ++ lexicon.fractionWords p.fraction),
          w.toList.any Char.isDigit = false :=
        List.forall_mem_cons.2 ⟨hdistinct.negative.2, hdigit⟩
      rw [takenDown_of_words (by rwa [hsigned]), hsigned, takenDownWords, if_pos rfl, htaken]

/-- What is said of a finite number is taken down as its text. -/
theorem takenDown_readNumber {x : Float} (hx : IsFinite x) :
    lexicon.takenDown (lexicon.readNumber x) = text x := by
  have hread : lexicon.readNumber x = lexicon.readChars (text x).toList := by
    have hdefined : ¬ IsUndefined x := Nat.lt_asymm hx
    rw [readNumber, if_neg hdefined, if_neg (not_not_intro hx)]
    rfl
  have htrim : Text.trim (text x).toList = (text x).toList :=
    Text.trim_of_isVisible (isVisible_of_mem_text hx)
  obtain ⟨negative, body, htext, ⟨⟨c, hc, hdigit⟩, he⟩ | ⟨p, rfl, hp⟩⟩ := exists_of_text hx
  · rw [hread,
      hdistinct.takenDown_scientific htrim ⟨c, by simp [htext, hc], hdigit⟩ (by simp [htext, he]),
      String.ofList_toList]
  · rw [hread, htext, hdistinct.takenDown_plainDecimal hclear p hp, ← htext, String.ofList_toList]

end IsDistinct

end Lexicon

theorem Language.isDistinct_lexicon (language : Language) : language.lexicon.IsDistinct := by
  cases language with
  | persian =>
      exact ⟨by constructor <;> decide +kernel, by decide +kernel, by decide +kernel,
        by decide +kernel, by decide +kernel,
      by decide +kernel, by decide +kernel⟩
  | english =>
      exact ⟨by constructor <;> decide +kernel, by decide +kernel, by decide +kernel,
        by decide +kernel, by decide +kernel,
      by decide +kernel, by decide +kernel⟩

theorem Language.read_special (language : Language) :
    language.lexicon.read "NaN" = language.lexicon.undefined ∧
    language.lexicon.read "Infinity" = language.lexicon.infinity ∧
      language.lexicon.read "-Infinity" =
        language.lexicon.negative ++ " " ++ language.lexicon.infinity := by
  cases language <;> decide +kernel

/-- Finite numbers of which the same is said have the same text, and what is said of any number is
what is said of its text. -/
theorem numbers_are_said_without_loss (language : Language) :
    (∀ x y, IsFinite x → IsFinite y →
      language.lexicon.readNumber x = language.lexicon.readNumber y → text x = text y) ∧
      ∀ x, language.lexicon.readNumber x = language.lexicon.read (text x) := by
  have hdistinct := language.isDistinct_lexicon
  have hclear := language.isClear_lexicon
  refine ⟨fun x y hx hy hsaid => ?_, fun x => ?_⟩
  · rw [← hdistinct.takenDown_readNumber hclear hx, hsaid, hdistinct.takenDown_readNumber hclear hy]
  · obtain ⟨hundefined, hinfinity, hnegative⟩ := language.read_special
    rw [Lexicon.readNumber, text]
    split
    · exact hundefined.symm
    · split
      · split
        · exact hnegative.symm
        · exact hinfinity.symm
      · rfl

theorem numbers_are_said_without_loss_zero :
    IsFinite zero ∧ IsFinite (ofMagnitude true 0) ∧
      Lexicon.english.readNumber zero = Lexicon.english.readNumber (ofMagnitude true 0) ∧
      text zero = text (ofMagnitude true 0) ∧
      Lexicon.english.readNumber (ofMagnitude true Binary.double.infinity) =
        Lexicon.english.read "-Infinity" := by
  have hfinite : IsFinite zero := by decide +kernel
  have hfinite' : IsFinite (ofMagnitude true 0) := by decide +kernel
  have hsaid : Lexicon.english.readNumber zero =
      Lexicon.english.readNumber (ofMagnitude true 0) := by decide +kernel
  have hinfinite : text (ofMagnitude true Binary.double.infinity) = "-Infinity" := by decide +kernel
  obtain ⟨hlossless, hread⟩ := numbers_are_said_without_loss .english
  exact ⟨hfinite, hfinite', hsaid, hlossless _ _ hfinite hfinite' hsaid, hinfinite ▸ hread _⟩

end TalkingCalculator
