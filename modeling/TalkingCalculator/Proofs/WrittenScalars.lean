import TalkingCalculator.Proofs.NumberText
import TalkingCalculator.Proofs.QuotedTexts
import TalkingCalculator.Settings.Text

namespace TalkingCalculator

namespace Toml

/-- Digits before and after a point, with no zero before other digits. -/
structure Pointed where
  whole : List Char
  fraction : List Char
  whole_isDigit : ∀ c ∈ whole, c.isDigit = true
  fraction_isDigit : ∀ c ∈ fraction, c.isDigit = true
  whole_ne_nil : whole ≠ []
  fraction_ne_nil : fraction ≠ []
  whole_head : whole.head? = some '0' → whole = ['0']

namespace Pointed

def text (p : Pointed) : List Char :=
  p.whole ++ '.' :: p.fraction

def decimal (p : Pointed) : Decimal :=
  ⟨ofDigits (p.whole ++ p.fraction), -p.fraction.length⟩

theorem decimal_eq {p : Pointed} {d : Decimal}
    (hcoefficient : ofDigits (p.whole ++ p.fraction) = d.coefficient)
    (hexponent : -(p.fraction.length : Int) = d.exponent) : p.decimal = d := by
  rw [decimal, hcoefficient, hexponent]

end Pointed

section Writing

open Decimal

variable {b : Binary}

/-- Digits without a point are followed by one and a zero. -/
def pointedText (ds : List Char) : List Char :=
  ds ++ if ds.contains '.' then [] else ['.', '0']

theorem pointedText_of_point (whole fraction : List Char) :
    pointedText (whole ++ '.' :: fraction) = whole ++ '.' :: fraction := by
  rw [pointedText, if_pos (by simp), List.append_nil]

theorem pointedText_of_isDigit {ds : List Char} (h : ∀ c ∈ ds, c.isDigit = true) :
    pointedText ds = ds ++ ['.', '0'] := by
  rw [pointedText, if_neg]
  intro hpoint
  exact absurd (h '.' (by simpa using hpoint)) (by decide)

theorem exists_pointed_of_zeros (hb : b.IsRegular) {d : Decimal} (hne : d.coefficient ≠ 0)
    (h : 0 ≤ d.exponent) :
    ∃ p : Pointed,
      p.text = pointedText (digits d.coefficient ++ List.replicate d.exponent.toNat '0') ∧
      p.decimal.nearest b = d.nearest b := by
  have hdigits : ∀ c ∈ digits d.coefficient ++ List.replicate d.exponent.toNat '0',
      c.isDigit = true := by
    intro c hc
    rcases List.mem_append.1 hc with hc | hc
    · exact isDigit_of_mem_digits hc
    · obtain ⟨-, rfl⟩ := List.mem_replicate.1 hc
      rfl
  have hhead : (digits d.coefficient ++ List.replicate d.exponent.toNat '0').head? ≠ some '0' := by
    rw [List.head?_append_of_ne_nil _ Nat.toDigits_ne_nil]
    exact head?_digits_ne_zero hne
  refine ⟨⟨_, ['0'], hdigits, by simp, List.append_ne_nil_of_left_ne_nil Nat.toDigits_ne_nil _,
    by simp, fun hzero => absurd hzero hhead⟩, (pointedText_of_isDigit hdigits).symm, ?_⟩
  have hcoefficient :
      ofDigits (digits d.coefficient ++ List.replicate d.exponent.toNat '0' ++ ['0']) =
      d.coefficient * 10 ^ d.exponent.toNat * 10 := by
    rw [ofDigits, Nat.ofDigitChars_append, Nat.ofDigitChars_append, Nat.ofDigitChars_replicate_zero,
      Nat.ofDigitChars_ten_toDigits, Nat.mul_comm (10 ^ _), Nat.mul_comm _ 10]
    rfl
  have hneg : (-d.exponent).toNat = 0 := by omega
  rw [Pointed.decimal, hcoefficient]
  change nearest b ⟨_, -1⟩ = _
  rw [nearest_tenfold hb, nearest_eq hb, nearest_eq hb, hneg]
  simp

theorem exists_pointed_of_positional (hb : b.IsRegular) {d : Decimal} (hne : d.coefficient ≠ 0) :
    ∃ p : Pointed, p.text = pointedText d.positional ∧ p.decimal.nearest b = d.nearest b := by
  have hdigits : ∀ c ∈ digits d.coefficient, c.isDigit = true :=
    fun c hc => isDigit_of_mem_digits hc
  simp only [positional]
  split
  · next h => exact exists_pointed_of_zeros hb hne h
  · split
    · next hneg hinside =>
        generalize hk : ((digits d.coefficient).length + d.exponent).toNat = k
        have hsplit := List.take_append_drop k (digits d.coefficient)
        have hhead : ((digits d.coefficient).take k).head? ≠ some '0' := by
          rw [List.head?_take, if_neg (by omega)]
          exact head?_digits_ne_zero hne
        refine ⟨⟨(digits d.coefficient).take k, (digits d.coefficient).drop k,
          fun c hc => hdigits c (List.mem_of_mem_take hc), fun c hc =>
            hdigits c (List.mem_of_mem_drop hc),
          List.ne_nil_of_length_pos (by rw [List.length_take]; omega),
          List.ne_nil_of_length_pos (by rw [List.length_drop]; omega), fun hzero =>
            absurd hzero hhead⟩,
          (pointedText_of_point _ _).symm, congrArg (nearest b) (Pointed.decimal_eq ?_ ?_)⟩
        · rw [hsplit]
          exact Nat.ofDigitChars_ten_toDigits
        · rw [List.length_drop]
          omega
    · next hneg hbefore =>
        generalize hk : (-((digits d.coefficient).length + d.exponent)).toNat = k
        have hfraction : ∀ c ∈ List.replicate k '0' ++ digits d.coefficient, c.isDigit = true := by
          rw [List.forall_mem_append]
          exact ⟨fun c hc => by rw [List.eq_of_mem_replicate hc]; decide, hdigits⟩
        refine ⟨⟨['0'], List.replicate k '0' ++ digits d.coefficient, by simp, hfraction, by simp,
          List.append_ne_nil_of_right_ne_nil _ Nat.toDigits_ne_nil, fun _ =>
            rfl⟩, (pointedText_of_point ['0'] _).symm,
          congrArg (nearest b)
            (Pointed.decimal_eq (ofDigits_zeros_append (k + 1) d.coefficient) ?_)⟩
        rw [List.length_append, List.length_replicate]
        omega

theorem exists_pointed_of_writeFloat {x : Float} (hx : Number.IsFinite x) :
    ∃ p : Pointed, writeFloat x = (if Number.isNegative x then ['-'] else []) ++ p.text ∧
      p.decimal.nearest Binary.double = Number.magnitude x := by
  have hdefined : ¬ Number.IsUndefined x := Nat.lt_asymm hx
  have hwrite : writeFloat x = (if Number.isNegative x then ['-'] else []) ++ pointedText
      (if Number.magnitude x = 0 then
        ['0'] else (shortest Binary.double (Number.magnitude x)).positional) := by
    rw [writeFloat, if_neg hdefined, if_neg (Classical.not_not.2 hx), List.append_assoc]
    rfl
  by_cases hzero : Number.magnitude x = 0
  · rw [hwrite, if_pos hzero, hzero]
    exact ⟨⟨['0'], ['0'], by simp, by simp, by simp, by simp, fun _ => rfl⟩, rfl, rfl⟩
  · have hshortest := nearest_shortest Binary.isRegular_double (Nat.le_of_lt hx)
    have hcoefficient :=
      coefficient_shortest_ne_zero Binary.isRegular_double hzero (Nat.le_of_lt hx)
    obtain ⟨p, htext, hdecimal⟩ := exists_pointed_of_positional Binary.isRegular_double hcoefficient
    rw [hwrite, if_neg hzero, ← htext]
    exact ⟨p, rfl, hdecimal.trans hshortest⟩

end Writing

section Reading

variable {ds rest : List Char}

theorem moreDigits_run (hds : ∀ c ∈ ds, c.isDigit = true)
    (hrest : ∀ c ∈ rest.head?, c.isDigit = false ∧ c ≠ '_') :
    moreDigits Char.isDigit (ds ++ rest) = (ds, rest) := by
  induction ds with
  | nil =>
      cases rest with
      | nil => rfl
      | cons c rest =>
          obtain ⟨hdigit, hunderscore⟩ := hrest c rfl
          rw [List.nil_append, moreDigits, if_neg (by simp [hdigit])]
          exact fun d cs hc => absurd hc hunderscore
  | cons d ds ih =>
      rw [List.forall_mem_cons] at hds
      rw [List.cons_append, moreDigits, if_pos hds.1, ih hds.2]
      rintro d' cs rfl
      exact absurd hds.1 (by decide)

theorem readDigits_run (hne : ds ≠ []) (hds : ∀ c ∈ ds, c.isDigit = true)
    (hrest : ∀ c ∈ rest.head?, c.isDigit = false ∧ c ≠ '_') :
    readDigits Char.isDigit (ds ++ rest) = some (ds, rest) := by
  obtain ⟨d, ds, rfl⟩ := List.exists_cons_of_ne_nil hne
  rw [List.forall_mem_cons] at hds
  rw [List.cons_append, readDigits, if_pos hds.1, moreDigits_run hds.2 hrest]

theorem floatOf?_of_lt {negative : Bool} {d : Decimal}
    (h : d.nearest Binary.double < Binary.double.infinity) :
    floatOf? negative d =
      some (.float (Number.ofMagnitude negative (d.nearest Binary.double))) := by
  rw [floatOf?]
  exact if_neg fun hinfinity => Nat.ne_of_lt h hinfinity.1

namespace Pointed

theorem readWhole_append (p : Pointed) (cs : List Char) :
    readWhole (p.whole ++ '.' :: cs) = some (p.whole, '.' :: cs) := by
  by_cases hzero : p.whole.head? = some '0'
  · rw [p.whole_head hzero]
    rfl
  · rw [readWhole]
    · exact readDigits_run p.whole_ne_nil p.whole_isDigit (by simp)
    · intro more hmore
      rw [← List.head?_append_of_ne_nil _ p.whole_ne_nil, hmore] at hzero
      exact hzero rfl

theorem readDecimal_text (p : Pointed) (negative : Bool)
    (hfinite : p.decimal.nearest Binary.double < Binary.double.infinity) (rest : List Char) :
    readDecimal negative (p.text ++ '\n' :: rest) =
      some (.float (Number.ofMagnitude negative (p.decimal.nearest Binary.double)),
        '\n' :: rest) := by
  have hfraction : readFraction ('.' :: (p.fraction ++ '\n' :: rest)) =
      some (p.fraction, '\n' :: rest) :=
    readDigits_run p.fraction_ne_nil p.fraction_isDigit (by simp)
  have hexponent : readExponent ('\n' :: rest) = some (none, '\n' :: rest) := rfl
  have hdecimal :
      (⟨ofDigits (p.whole ++ p.fraction), (none : Option Int).getD 0 - p.fraction.length⟩ :
        Decimal) = p.decimal := by
    rw [decimal, Option.getD_none, Int.zero_sub]
  rw [readDecimal, text, List.append_assoc, List.cons_append]
  simp only [p.readWhole_append, hfraction, hexponent, Option.bind_eq_bind, Option.bind_some]
  rw [if_neg (by simp [p.fraction_ne_nil]), hdecimal, floatOf?_of_lt hfinite]
  rfl

theorem exists_text_eq (p : Pointed) :
    ∃ c cs, p.text = c :: cs ∧ c.isDigit = true ∧ ∀ d ∈ cs.head?, d.isDigit = true ∨ d = '.' := by
  obtain ⟨c, cs, hwhole⟩ := List.exists_cons_of_ne_nil p.whole_ne_nil
  have hdigits := p.whole_isDigit
  rw [hwhole, List.forall_mem_cons] at hdigits
  refine ⟨c, cs ++ '.' :: p.fraction, by rw [text, hwhole, List.cons_append], hdigits.1,
    fun d hd => ?_⟩
  cases cs with
  | nil =>
      obtain rfl := Option.some.inj hd
      exact .inr rfl
  | cons e cs =>
      obtain rfl := Option.some.inj hd
      exact .inl (hdigits.2 e (List.mem_cons_self ..))

end Pointed

theorem readNumeral_eq {cs : List Char} (h : ∀ c ∈ cs.tail.head?, c ∉ ['x', 'o', 'b']) :
    readNumeral cs = (readSpecial ((Decimal.splitSign cs).1 = ['-']) (Decimal.splitSign cs).2).or
      (readDecimal ((Decimal.splitSign cs).1 = ['-']) (Decimal.splitSign cs).2) := by
  unfold readNumeral
  split
  · exact absurd (h 'x' rfl) (by decide)
  · exact absurd (h 'o' rfl) (by decide)
  · exact absurd (h 'b' rfl) (by decide)
  · rfl

theorem readSpecial_eq_none {negative : Bool} {c : Char} {cs : List Char} (hi : c ≠ 'i')
    (hn : c ≠ 'n') :
    readSpecial negative (c :: cs) = none := by
  unfold readSpecial
  split
  · next heq => exact absurd (List.cons.inj heq).1 hi
  · next heq => exact absurd (List.cons.inj heq).1 hn
  · rfl

theorem readNumeral_writeFloat {x : Float} (hx : Number.IsFinite x) (rest : List Char) :
    readNumeral (writeFloat x ++ '\n' :: rest) = some (.float x, '\n' :: rest) := by
  obtain ⟨p, htext, hdecimal⟩ := exists_pointed_of_writeFloat hx
  obtain ⟨c, cs, hp, hc, hcs⟩ := p.exists_text_eq
  have hne : ∀ d : Char, d.isDigit = false → c ≠ d := by
    rintro d hd rfl
    rw [hc] at hd
    cases hd
  have hspecial : ∀ negative, readSpecial negative (p.text ++ '\n' :: rest) = none :=
    fun negative => by
    rw [hp]
    exact readSpecial_eq_none (hne 'i' (by decide)) (hne 'n' (by decide))
  have hread : ∀ negative, readDecimal negative (p.text ++ '\n' :: rest) =
      some (.float (Number.ofMagnitude negative (Number.magnitude x)), '\n' :: rest) :=
    fun negative => by
    rw [p.readDecimal_text negative (by rw [hdecimal]; exact hx), hdecimal]
  conv_rhs => rw [← Number.ofMagnitude_magnitude x]
  rw [htext]
  cases Number.isNegative x with
  | true =>
      have hmark : ∀ d ∈ ('-' :: (p.text ++ '\n' :: rest)).tail.head?, d ∉ ['x', 'o', 'b'] := by
        rw [List.tail_cons, hp]
        rintro d ⟨⟩ hmem
        simp only [List.mem_cons, List.not_mem_nil, or_false] at hmem
        rcases hmem with rfl | rfl | rfl <;> exact absurd hc (by decide)
      have hsign : Decimal.splitSign ('-' :: (p.text ++ '\n' :: rest)) =
          (['-'], p.text ++ '\n' :: rest) := rfl
      rw [if_pos rfl, List.append_assoc, List.singleton_append, readNumeral_eq hmark, hsign,
        hspecial, hread]
      rfl
  | false =>
      have hmark : ∀ d ∈ (p.text ++ '\n' :: rest).tail.head?, d ∉ ['x', 'o', 'b'] := by
        rw [hp, List.cons_append, List.tail_cons]
        intro d hd hmem
        have hplain : d.isDigit = true ∨ d = '.' ∨ d = '\n' := by
          cases cs with
          | nil =>
              obtain rfl := Option.some.inj hd
              exact .inr (.inr rfl)
          | cons e cs => exact (hcs d hd).imp_right .inl
        simp only [List.mem_cons, List.not_mem_nil, or_false] at hmem
        rcases hmem with rfl | rfl | rfl <;> exact absurd hplain (by decide)
      have hsign : Decimal.splitSign (p.text ++ '\n' :: rest) = ([], p.text ++ '\n' :: rest) := by
        refine Decimal.splitSign_of_head? fun d hd => ?_
        rw [hp] at hd
        obtain rfl := Option.some.inj hd
        exact ⟨hne '+' (by decide), hne '-' (by decide)⟩
      rw [if_neg (by decide), List.nil_append, readNumeral_eq hmark, hsign, hspecial, hread]
      rfl

theorem isDigit_or_head?_of_readField {width n : Nat} {cs tail : List Char}
    (h : readField width cs = some (n, tail)) :
    ∀ c ∈ tail.head?, c.isDigit = true ∨ c ∈ (cs.dropWhile Char.isDigit).head? := by
  rw [readField] at h
  split at h
  · next hdigits =>
      cases h
      have hdrop : cs.dropWhile Char.isDigit = (cs.drop width).dropWhile Char.isDigit := by
        conv_lhs => rw [← List.take_append_drop width cs]
        exact List.dropWhile_append_of_pos (List.all_eq_true.1 hdigits.2)
      rw [hdrop]
      intro c hc
      cases hdigit : c.isDigit with
      | true => exact .inl rfl
      | false =>
          obtain ⟨more, hmore⟩ := List.head?_eq_some_iff.1 hc
          rw [hmore, List.dropWhile_cons_of_neg (by simp [hdigit])]
          exact .inr rfl
  · cases h

theorem skipOneOf_eq_none {mark : Char} {cs : List Char} (h : mark ∉ cs.head?) :
    skipOneOf [mark] cs = none := by
  cases cs with
  | nil => rfl
  | cons c cs =>
      rw [skipOneOf, if_neg]
      intro hmark
      exact h (by simpa [eq_comm] using hmark)

theorem skipMoment_eq_none {cs : List Char}
    (hdate : ∀ n tail, readField 4 cs = some (n, tail) → skipOneOf ['-'] tail = none)
    (htime : ∀ n tail, readField 2 cs = some (n, tail) → skipOneOf [':'] tail = none) :
    skipMoment cs = none := by
  have hdate' : skipDate cs = none := by
    rw [skipDate]
    cases hread : readField 4 cs with
    | none => rfl
    | some found =>
        simp only [Option.bind_eq_bind, Option.bind_some, hdate _ _ hread, Option.bind_none]
  have htime' : skipTime cs = none := by
    rw [skipTime, skipField]
    cases hread : readField 2 cs with
    | none => rfl
    | some found =>
        simp only [Option.bind_eq_bind, Option.bind_some]
        split
        · simp only [Option.bind_some, htime _ _ hread, Option.bind_none]
        · rfl
  rw [skipMoment, skipDateTime, hdate', htime']
  rfl

theorem skipMoment_point (hds : ∀ c ∈ ds, c.isDigit = true) :
    skipMoment (ds ++ '.' :: rest) = none := by
  -- No moment begins with digits before a point.
  have hdrop : (ds ++ '.' :: rest).dropWhile Char.isDigit = '.' :: rest :=
    dropWhile_run hds (by simp)
  have hmark : ∀ mark : Char, mark.isDigit = false → mark ≠ '.' → ∀ width n tail,
      readField width (ds ++ '.' :: rest) = some (n, tail) → skipOneOf [mark] tail = none := by
    intro mark hdigit hpoint width n tail hread
    refine skipOneOf_eq_none fun hmem => ?_
    rcases isDigit_or_head?_of_readField hread mark hmem with htrue | hhead
    · rw [hdigit] at htrue
      cases htrue
    · rw [hdrop] at hhead
      exact hpoint (Option.some.inj hhead).symm
  exact skipMoment_eq_none (hmark '-' (by decide) (by decide) 4)
    (hmark ':' (by decide) (by decide) 2)

theorem skipMoment_cons {c : Char} {cs : List Char} (hc : c.isDigit = false) :
    skipMoment (c :: cs) = none := by
  have hfield : ∀ width, readField (width + 1) (c :: cs) = none := fun width => by
    rw [readField, if_neg]
    rintro ⟨-, hdigits⟩
    rw [List.take_succ_cons, List.all_cons, hc] at hdigits
    cases hdigits
  exact skipMoment_eq_none (fun n tail hread => by rw [hfield] at hread; cases hread)
    fun n tail hread => by rw [hfield] at hread; cases hread

theorem readNumeral_eq_none {c : Char} {cs : List Char} (hdigit : c.isDigit = false)
    (hc : c ∉ ['+', '-', 'i', 'n']) :
    readNumeral (c :: cs) = none := by
  simp only [List.mem_cons, List.not_mem_nil, or_false, not_or] at hc
  obtain ⟨hplus, hminus, hi, hn⟩ := hc
  have hzero : c ≠ '0' := by
    rintro rfl
    exact absurd hdigit (by decide)
  have hsign : Decimal.splitSign (c :: cs) = ([], c :: cs) :=
    Decimal.splitSign_of_head? fun d hd => Option.some.inj hd ▸ ⟨hplus, hminus⟩
  have hwhole : readWhole (c :: cs) = none := by
    rw [readWhole]
    · rw [readDigits, if_neg (by simp [hdigit])]
    · exact fun more hmore => hzero (List.cons.inj hmore).1
  unfold readNumeral
  split
  · next heq => exact absurd (List.cons.inj heq).1 hzero
  · next heq => exact absurd (List.cons.inj heq).1 hzero
  · next heq => exact absurd (List.cons.inj heq).1 hzero
  · rw [hsign]
    dsimp only
    rw [readSpecial_eq_none hi hn, readDecimal, hwhole]
    rfl

end Reading

/-- Whether a value is read from a text at the end of a line, and the text begins no array, no table
and no gap and has no carriage return. -/
structure IsWritten (w : List Char) (v : Value) : Prop where
  reads : ∀ rest, readScalar (w ++ '\n' :: rest) = some (v, '\n' :: rest)
  head : ∃ c cs, w = c :: cs ∧ c ∉ ['[', '\x7b', ' ', '\t']
  noReturn : '\r' ∉ w

theorem isWritten_float {x : Float} (hx : Number.IsFinite x) :
    IsWritten (writeFloat x) (.float x) := by
  obtain ⟨p, htext, -⟩ := exists_pointed_of_writeFloat hx
  obtain ⟨c, cs, hp, hc, -⟩ := p.exists_text_eq
  have hhead : ∃ d ds, writeFloat x = d :: ds ∧ (d.isDigit = true ∨ d = '-') := by
    rw [htext, hp]
    cases Number.isNegative x
    · exact ⟨c, cs, rfl, .inl hc⟩
    · exact ⟨'-', c :: cs, rfl, .inr rfl⟩
  refine ⟨fun rest => ?_, ?_, ?_⟩
  · have hmoment : skipMoment (writeFloat x ++ '\n' :: rest) = none := by
      rw [htext]
      cases Number.isNegative x
      · rw [if_neg (by decide), List.nil_append, Pointed.text, List.append_assoc]
        exact skipMoment_point p.whole_isDigit
      · exact skipMoment_cons (by decide)
    rw [readScalar, hmoment, readNumeral_writeFloat hx]
  · obtain ⟨d, ds, hwritten, hd⟩ := hhead
    refine ⟨d, ds, hwritten, fun hmem => ?_⟩
    simp only [List.mem_cons, List.not_mem_nil, or_false] at hmem
    rcases hmem with rfl | rfl | rfl | rfl <;> exact absurd hd (by decide)
  · intro hreturn
    rw [htext, Pointed.text] at hreturn
    simp only [List.mem_append, List.mem_cons] at hreturn
    rcases hreturn with hsign | hwhole | hpoint | hfraction
    · revert hsign
      cases Number.isNegative x <;> decide
    · exact absurd (p.whole_isDigit _ hwhole) (by decide)
    · exact absurd hpoint (by decide)
    · exact absurd (p.fraction_isDigit _ hfraction) (by decide)

theorem isWritten_boolean (b : Bool) : IsWritten (Settings.booleanText b) (.boolean b) := by
  cases b with
  | false => exact ⟨fun rest => rfl, ⟨'f', _, rfl, by decide⟩, by decide⟩
  | true => exact ⟨fun rest => rfl, ⟨'t', _, rfl, by decide⟩, by decide⟩

theorem Style.exists_write_eq (st : Style) (cs : List Char) : ∃ w, st.write cs = st.quote :: w := by
  cases st <;> exact ⟨_, rfl⟩

theorem isWritten_text (s : String) : IsWritten (writeText s) (.text s) := by
  obtain ⟨w, hw⟩ := (Style.choose s.toList).exists_write_eq s.toList
  rw [← writeText] at hw
  have hquote : (Style.choose s.toList).quote = '"' ∨ (Style.choose s.toList).quote = '\'' := by
    cases Style.choose s.toList <;> decide
  generalize (Style.choose s.toList).quote = q at hw hquote
  refine ⟨fun rest => ?_, ⟨q, w, hw, ?_⟩, ?_⟩
  · have hread : readText (writeText s ++ '\n' :: rest) = some (s, '\n' :: rest) :=
      readText_writeText s (by rintro c ⟨⟩; decide)
    have hboolean : readBoolean (q :: (w ++ '\n' :: rest)) = none := by
      rcases hquote with rfl | rfl <;> rfl
    rw [readScalar, hread, hw, List.cons_append,
      skipMoment_cons (by rcases hquote with rfl | rfl <;> decide),
      readNumeral_eq_none (by rcases hquote with rfl | rfl <;> decide)
        (by rcases hquote with rfl | rfl <;> decide), hboolean]
    rfl
  · rcases hquote with rfl | rfl <;> decide
  · intro hreturn
    exact absurd (isPlain_or_newline_of_mem_writeText hreturn) (by decide)

end Toml

end TalkingCalculator
