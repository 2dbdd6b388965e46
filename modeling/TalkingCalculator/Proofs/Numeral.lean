import TalkingCalculator.Number.Basic

namespace TalkingCalculator

/-- The digits of a numeral, with at most one point among them. -/
structure Mantissa where
  whole : List Char
  /-- The digits after the point, if there is a point. -/
  fraction : Option (List Char)
  isDigit : ∀ c ∈ whole ++ fraction.getD [], c.isDigit = true
  ne_nil : whole ++ fraction.getD [] ≠ []

structure Exponent where
  sign : List Char
  digits : List Char
  sign_mem : sign ∈ [[], ['+'], ['-']]
  isDigit : ∀ c ∈ digits, c.isDigit = true
  ne_nil : digits ≠ []

structure Numeral where
  mantissa : Mantissa
  exponent : Option Exponent

def Mantissa.text (m : Mantissa) : List Char :=
  m.whole ++ m.fraction.elim [] fun digits => '.' :: digits

def Exponent.text (e : Exponent) : List Char :=
  'e' :: (e.sign ++ e.digits)

def Exponent.value (e : Exponent) : Int :=
  if e.sign = ['-'] then -(ofDigits e.digits : Int) else ofDigits e.digits

theorem Exponent.sign_eq (e : Exponent) : e.sign = [] ∨ e.sign = ['+'] ∨ e.sign = ['-'] := by
  simpa using e.sign_mem

namespace Numeral

def text (n : Numeral) : List Char :=
  n.mantissa.text ++ n.exponent.elim [] Exponent.text

def decimal (n : Numeral) : Decimal :=
  ⟨ofDigits (n.mantissa.whole ++ n.mantissa.fraction.getD []),
    n.exponent.elim 0 Exponent.value - (n.mantissa.fraction.getD []).length⟩

def value (n : Numeral) : Float :=
  Number.ofDecimal n.decimal

end Numeral

section Runs

variable {α : Type} {p : α → Bool} {xs ys : List α}

theorem exists_run (p : α → Bool) (xs : List α) :
    ∃ run rest, xs = run ++ rest ∧ (∀ x ∈ run, p x = true) ∧ ∀ x ∈ rest.head?, p x = false := by
  refine ⟨xs.takeWhile p, xs.dropWhile p, List.takeWhile_append_dropWhile.symm,
    List.all_eq_true.1 List.all_takeWhile, fun x hx => ?_⟩
  have hnot := List.head?_dropWhile_not p xs
  rw [hx] at hnot
  simpa using hnot

theorem takeWhile_run (hx : ∀ x ∈ xs, p x = true) (hy : ∀ y ∈ ys.head?, p y = false) :
    (xs ++ ys).takeWhile p = xs := by
  rw [List.takeWhile_append_of_pos hx]
  cases ys with
  | nil => simp
  | cons y ys => simp [hy y (by simp)]

theorem dropWhile_run (hx : ∀ x ∈ xs, p x = true) (hy : ∀ y ∈ ys.head?, p y = false) :
    (xs ++ ys).dropWhile p = ys := by
  rw [List.dropWhile_append_of_pos hx]
  cases ys with
  | nil => simp
  | cons y ys => simp [hy y (by simp)]

end Runs

namespace Decimal

theorem splitSign_mem (cs : List Char) : (splitSign cs).1 ∈ [[], ['+'], ['-']] := by
  unfold splitSign
  split <;> simp

theorem splitSign_of_head? {cs : List Char} (h : ∀ c ∈ cs.head?, c ≠ '+' ∧ c ≠ '-') :
    splitSign cs = ([], cs) := by
  unfold splitSign
  split
  · exact absurd rfl (h '+' (by simp)).1
  · exact absurd rfl (h '-' (by simp)).2
  · rfl

theorem splitSign_append_digits {sign digits : List Char} (hsign : sign ∈ [[], ['+'], ['-']])
    (hdigits : ∀ c ∈ digits.head?, c.isDigit = true) :
    splitSign (sign ++ digits) = (sign, digits) := by
  simp only [List.mem_cons, List.not_mem_nil, or_false] at hsign
  rcases hsign with rfl | rfl | rfl
  · refine splitSign_of_head? fun c hc => ?_
    have hdigit := hdigits c hc
    constructor <;> rintro rfl <;> exact absurd hdigit (by decide)
  · rfl
  · rfl

theorem readExponent?_text (e : Exponent) : readExponent? e.text = some e.value := by
  have hhead : ∀ c ∈ e.digits.head?, c.isDigit = true :=
    fun c hc => e.isDigit c (List.mem_of_mem_head? hc)
  have hall : e.digits.all Char.isDigit = true := List.all_eq_true.2 e.isDigit
  simp only [Exponent.text, readExponent?, splitSign_append_digits e.sign_mem hhead]
  simp [e.ne_nil, hall, Exponent.value]

theorem read?_whole {whole tail : List Char} (hwhole : ∀ c ∈ whole, c.isDigit = true)
    (htail : ∀ c ∈ tail.head?, c.isDigit = false ∧ c ≠ '.') :
    read? (whole ++ tail) =
      if whole = [] then none else (readExponent? tail).map fun e => ⟨ofDigits whole, e⟩ := by
  have hdigit : ∀ c ∈ tail.head?, c.isDigit = false := fun c hc => (htail c hc).1
  simp only [read?, takeWhile_run hwhole hdigit, dropWhile_run hwhole hdigit]
  split
  · next rest => exact absurd rfl (htail '.' (by simp)).2
  · simp

theorem read?_fraction {whole fraction tail : List Char} (hwhole : ∀ c ∈ whole, c.isDigit = true)
    (hfraction : ∀ c ∈ fraction, c.isDigit = true) (htail : ∀ c ∈ tail.head?, c.isDigit = false) :
    read? (whole ++ '.' :: (fraction ++ tail)) =
      if whole = [] ∧ fraction = [] then none
      else (readExponent? tail).map fun e =>
        ⟨ofDigits (whole ++ fraction), e - fraction.length⟩ := by
  have hpoint : ∀ c ∈ ('.' :: (fraction ++ tail)).head?, c.isDigit = false := by
    simp
  simp only [read?, takeWhile_run hwhole hpoint, dropWhile_run hwhole hpoint,
    takeWhile_run hfraction htail, dropWhile_run hfraction htail]

theorem exists_of_readExponent? {cs : List Char} {value : Int} (h : readExponent? cs = some value)
    (hmark : 'E' ∉ cs) :
    ∃ e : Option Exponent, e.elim [] Exponent.text = cs ∧ e.elim 0 Exponent.value = value := by
  cases cs with
  | nil => exact ⟨none, rfl, by simpa [readExponent?] using h⟩
  | cons mark cs =>
      simp only [readExponent?] at h
      split at h
      · next hexponent =>
          obtain ⟨hmark' | hmark', hne, hall⟩ := hexponent
          · refine ⟨some ⟨(splitSign cs).1, (splitSign cs).2, splitSign_mem cs,
              List.all_eq_true.1 hall, hne⟩, ?_, by simpa [Exponent.value] using h⟩
            simp [Exponent.text, splitSign_append, hmark']
          · exact absurd (hmark' ▸ List.mem_cons_self) hmark
      · cases h

end Decimal

namespace Numeral

theorem isDigit_of_mem_head?_exponent (n : Numeral) :
    ∀ c ∈ (n.exponent.elim [] Exponent.text).head?, c.isDigit = false ∧ c ≠ '.' := by
  cases n.exponent with
  | none => simp
  | some e => simp [Exponent.text]

theorem readExponent?_exponent (n : Numeral) :
    Decimal.readExponent? (n.exponent.elim [] Exponent.text) =
      some (n.exponent.elim 0 Exponent.value) := by
  cases n.exponent with
  | none => rfl
  | some e => exact Decimal.readExponent?_text e

theorem read?_text (n : Numeral) : Decimal.read? n.text = some n.decimal := by
  have htail := n.isDigit_of_mem_head?_exponent
  have hexponent := n.readExponent?_exponent
  obtain ⟨⟨whole, fraction, hdigit, hne⟩, exponent⟩ := n
  have hwhole : ∀ c ∈ whole, c.isDigit = true := fun c hc => hdigit c (by simp [hc])
  cases fraction with
  | none =>
      have hwhole_ne : whole ≠ [] := by simpa using hne
      simp only [text, Mantissa.text, Option.elim_none, List.append_nil]
      rw [Decimal.read?_whole hwhole htail, if_neg hwhole_ne, hexponent]
      simp [decimal]
  | some fraction =>
      have hfraction : ∀ c ∈ fraction, c.isDigit = true := fun c hc => hdigit c (by simp [hc])
      simp only [text, Mantissa.text, Option.elim_some, List.append_assoc, List.cons_append]
      rw [Decimal.read?_fraction hwhole hfraction fun c hc => (htail c hc).1,
        if_neg (by simpa using hne), hexponent]
      rfl

theorem exists_of_read?_whole {whole tail : List Char} {d : Decimal}
    (hwhole : ∀ c ∈ whole, c.isDigit = true)
    (htail : ∀ c ∈ tail.head?, c.isDigit = false ∧ c ≠ '.')
    (h : Decimal.read? (whole ++ tail) = some d) (hmark : 'E' ∉ tail) :
    ∃ n : Numeral, n.text = whole ++ tail ∧ n.decimal = d := by
  rw [Decimal.read?_whole hwhole htail] at h
  split at h
  · cases h
  · next hne =>
      obtain ⟨value, hvalue, rfl⟩ := Option.map_eq_some_iff.1 h
      obtain ⟨e, htext, rfl⟩ := Decimal.exists_of_readExponent? hvalue hmark
      refine ⟨⟨⟨whole, none, by simpa using hwhole, by simpa using hne⟩, e⟩, ?_, ?_⟩
      · simp [text, Mantissa.text, htext]
      · simp [decimal]

theorem exists_of_read?_fraction {whole fraction tail : List Char} {d : Decimal}
    (hwhole : ∀ c ∈ whole, c.isDigit = true) (hfraction : ∀ c ∈ fraction, c.isDigit = true)
    (htail : ∀ c ∈ tail.head?, c.isDigit = false)
    (h : Decimal.read? (whole ++ '.' :: (fraction ++ tail)) = some d) (hmark : 'E' ∉ tail) :
    ∃ n : Numeral, n.text = whole ++ '.' :: (fraction ++ tail) ∧ n.decimal = d := by
  rw [Decimal.read?_fraction hwhole hfraction htail] at h
  split at h
  · cases h
  · next hne =>
      obtain ⟨value, hvalue, rfl⟩ := Option.map_eq_some_iff.1 h
      obtain ⟨e, htext, rfl⟩ := Decimal.exists_of_readExponent? hvalue hmark
      refine ⟨⟨⟨whole, some fraction, ?_, by simpa using hne⟩, e⟩, ?_, rfl⟩
      · intro c hc
        rcases List.mem_append.1 hc with hc | hc
        · exact hwhole c hc
        · exact hfraction c hc
      · simp [text, Mantissa.text, htext]

theorem exists_of_read? {cs : List Char} {d : Decimal} (h : Decimal.read? cs = some d)
    (hmark : 'E' ∉ cs) : ∃ n : Numeral, n.text = cs ∧ n.decimal = d := by
  obtain ⟨whole, rest, rfl, hwhole, hrest⟩ := exists_run Char.isDigit cs
  by_cases hpoint : rest.head? = some '.'
  · obtain ⟨rest, rfl⟩ := List.head?_eq_some_iff.1 hpoint
    obtain ⟨fraction, tail, rfl, hfraction, htail⟩ := exists_run Char.isDigit rest
    exact exists_of_read?_fraction hwhole hfraction htail h fun hE => hmark (by simp [hE])
  · exact exists_of_read?_whole hwhole
      (fun c hc => ⟨hrest c hc, fun hc' => hpoint (hc' ▸ hc)⟩) h fun hE => hmark (by simp [hE])

theorem exponent_eq_none {n : Numeral} (h : 'e' ∉ n.text) : n.exponent = none := by
  cases he : n.exponent with
  | none => rfl
  | some e => simp [text, he, Exponent.text] at h

end Numeral

end TalkingCalculator
