import Mathlib.Data.List.Infix
import TalkingCalculator.Proofs.Numeral
import TalkingCalculator.Toml.Text

/-!
# Quoted texts read back

What is written for a text, in whatever style, is read as that text. Between the delimiters stand
characters that denote themselves and escapes, and no run of quotes reaches the width of the
delimiter before the text ends.
-/

namespace TalkingCalculator.Toml

/-- Whether what follows a backslash is read as a character, and does not hide a line break. -/
structure IsEscape (e : List Char) (c : Char) : Prop where
  reads : ∀ rest, readEscape (e ++ rest) = some (c, rest)
  visible : ∃ d tail, e = d :: tail ∧ isGap d = false ∧ d ≠ '\n'
  plain : ∀ d ∈ e, isPlain d = true

namespace Style

variable {st : Style} {w cs rest : List Char}

def leadingQuotes (st : Style) (w : List Char) : Nat :=
  (w.takeWhile (· = st.quote)).length

/-- `st.Denotes w cs` says that `w` is written between the delimiters for the characters `cs`. -/
inductive Denotes (st : Style) : List Char → List Char → Prop
  | nil : Denotes st [] []
  | plain {c : Char} {w cs : List Char}
      (hplain : isPlain c = true ∨ st.isMultiline = true ∧ c = '\n')
      (hescape : st.escapes = true →
        c ≠ '\\') (hquotes : st.leadingQuotes (c :: w) < st.width) (hrest : Denotes st w cs) :
      Denotes st (c :: w) (c :: cs)
  | escape {e : List Char} {c : Char} {w cs : List Char} (hescapes : st.escapes = true)
      (he : IsEscape e c)
      (hrest : Denotes st w cs) : Denotes st ('\\' :: (e ++ w)) (c :: cs)

theorem width_pos (st : Style) : 0 < st.width := by
  cases st <;> decide

theorem quote_ne_backslash (st : Style) : st.quote ≠ '\\' := by
  cases st <;> decide

theorem leadingQuotes_eq_zero {c : Char} (hc : c ≠ st.quote) : st.leadingQuotes (c :: w) = 0 := by
  simp [leadingQuotes, hc]

theorem leadingQuotes_cons_quote (st : Style) (w : List Char) :
    st.leadingQuotes (st.quote :: w) = st.leadingQuotes w + 1 := by
  simp [leadingQuotes]

theorem closing?_replicate {k : Nat} (hk : k < st.width) (hrest : ∀ c ∈ rest.head?, c ≠ st.quote) :
    st.closing? (List.replicate k st.quote ++ (st.delimiter ++ rest)) =
      some (List.replicate k st.quote, rest) := by
  have hrun : List.replicate k st.quote ++ (st.delimiter ++ rest) =
      List.replicate (k + st.width) st.quote ++ rest := by
    rw [delimiter, ← List.append_assoc, List.replicate_append_replicate]
  have htake : (List.replicate (k + st.width) st.quote ++ rest).takeWhile (· = st.quote) =
      List.replicate (k + st.width) st.quote :=
    takeWhile_run (by simp) (by simpa using hrest)
  rw [hrun, closing?]
  simp only [htake, List.length_replicate]
  rw [if_neg (by omega), show min (k + st.width - st.width) (st.width - 1) = k by omega,
    List.drop_left' (List.length_replicate ..)]

theorem closing?_eq_none (h : st.leadingQuotes w < st.width) : st.closing? w = none := by
  rw [closing?]
  exact if_pos h

theorem leadingQuotes_append {c : Char} (hc : c ∈ w) (hne : c ≠ st.quote) (more : List Char) :
    st.leadingQuotes (w ++ more) = st.leadingQuotes w := by
  -- The quotes that begin a text are those that begin what is before it, unless that is nothing
  -- but quotes.
  induction w with
  | nil => cases hc
  | cons d w ih =>
      by_cases hd : d = st.quote
      · subst hd
        rw [List.cons_append, leadingQuotes_cons_quote, leadingQuotes_cons_quote,
          ih ((List.mem_cons.1 hc).resolve_left hne)]
      · rw [List.cons_append, leadingQuotes_eq_zero hd, leadingQuotes_eq_zero hd]

theorem Denotes.eq_of_quotes (h : st.Denotes w cs) (hw : ∀ c ∈ w, c = st.quote) : cs = w := by
  induction h with
  | nil => rfl
  | plain hplain hescape hquotes hrest ih => rw [ih fun c hc => hw c (List.mem_cons_of_mem _ hc)]
  | escape hescapes he hrest ih => exact absurd (hw '\\' (by simp)).symm st.quote_ne_backslash

theorem leadingQuotes_eq_length (hw : ∀ c ∈ w, c = st.quote) : st.leadingQuotes w = w.length := by
  have htake : (w ++ []).takeWhile (· = st.quote) = w := takeWhile_run (by simpa using hw) (by simp)
  rw [List.append_nil] at htake
  rw [leadingQuotes, htake]

theorem readBody_of_closing? {cs : List Char} {found : List Char × List Char}
    (h : st.closing? cs = some found) :
    readBody st cs = some found := by
  cases cs with
  | nil =>
      rw [closing?_eq_none (w := []) st.width_pos] at h
      cases h
  | cons c cs => rw [readBody, h]

theorem readBody_plain {c : Char} (hclosing : st.closing? (c :: cs) = none)
    (hescape : st.escapes = true → c ≠ '\\')
    (hplain : isPlain c = true ∨ st.isMultiline = true ∧ c = '\n') :
    readBody st (c :: cs) = (readBody st cs).map fun (ds, last) => (c :: ds, last) := by
  rw [readBody, hclosing]
  dsimp only
  rw [if_neg (by simpa using hescape), if_pos (by simpa using hplain)]

theorem readBody_escape {e : List Char} {c : Char} (hescapes : st.escapes = true)
    (he : IsEscape e c) :
    readBody st ('\\' :: (e ++ cs)) = (readBody st cs).map fun (ds, last) => (c :: ds, last) := by
  have hclosing : st.closing? ('\\' :: (e ++ cs)) = none :=
    closing?_eq_none (by rw [leadingQuotes_eq_zero st.quote_ne_backslash.symm]; exact st.width_pos)
  have hbreak : st.hiddenBreak? (e ++ cs) = none := by
    obtain ⟨d, tail, rfl, hgap, hd⟩ := he.visible
    rw [hiddenBreak?]
    split
    · simp [skipGap, hgap, hd]
    · rfl
  have hread := he.reads cs
  rw [readBody, hclosing]
  dsimp only
  rw [if_pos (by simp [hescapes])]
  split
  · next hidden => rw [hbreak] at hidden; cases hidden
  · split
    · next hfound =>
        rw [hread] at hfound
        cases hfound
        rfl
    · next hnone => rw [hread] at hnone; cases hnone

theorem Denotes.isPlain_or_newline (h : st.Denotes w cs) :
    ∀ c ∈ w, isPlain c = true ∨ c = '\n' := by
  induction h with
  | nil => intro c hc; cases hc
  | plain hplain hescape hquotes hrest ih =>
      rw [List.forall_mem_cons]
      exact ⟨hplain.imp_right And.right, ih⟩
  | escape hescapes he hrest ih =>
      rw [List.forall_mem_cons, List.forall_mem_append]
      exact ⟨.inl (by decide), fun d hd => .inl (he.plain d hd), ih⟩

theorem Denotes.readBody (h : st.Denotes w cs) (hrest : ∀ c ∈ rest.head?, c ≠ st.quote) :
    Toml.readBody st (w ++ (st.delimiter ++ rest)) = some (cs, rest) := by
  induction h with
  | nil => exact readBody_of_closing? (closing?_replicate (k := 0) st.width_pos hrest)
  | @plain c w cs hplain hescape hquotes hw ih =>
      by_cases hall : ∀ d ∈ c :: w, d = st.quote
      · have hcs : c :: cs = c :: w := by
          rw [hw.eq_of_quotes fun d hd => hall d (List.mem_cons_of_mem _ hd)]
        rw [leadingQuotes_eq_length hall] at hquotes
        rw [hcs, List.eq_replicate_of_mem hall]
        exact readBody_of_closing? (closing?_replicate hquotes hrest)
      · obtain ⟨d, hd, hne⟩ : ∃ d ∈ c :: w, d ≠ st.quote := by
          simpa only [Classical.not_forall, exists_prop] using hall
        have hclosing : st.closing? (c :: w ++ (st.delimiter ++ rest)) = none :=
          closing?_eq_none (by rwa [leadingQuotes_append hd hne])
        rw [List.cons_append] at hclosing ⊢
        rw [readBody_plain hclosing hescape hplain, ih]
        rfl
  | escape hescapes he hw ih =>
      rw [List.cons_append, List.append_assoc, readBody_escape hescapes he, ih]
      rfl

end Style

section Escapes

open Text

theorem readCode_append {width : Nat} {ds : List Char} (h : ds.length = width) (rest : List Char) :
    readCode width (ds ++ rest) = (readCode width ds).map fun (c, tail) => (c, tail ++ rest) := by
  subst h
  rw [readCode, readCode, List.take_left, List.take_length, List.drop_left, List.drop_length,
    if_pos rfl, if_pos rfl]
  cases ds.mapM hexValue? with
  | none => rfl
  | some values =>
      dsimp only [Option.bind_eq_bind, Option.bind_some]
      split <;> rfl

theorem isEscape_of_mem {entry : Char × Char} (h : entry ∈ letterEscapes) :
    IsEscape [entry.1] entry.2 := by
  simp only [letterEscapes, List.mem_cons, List.not_mem_nil, or_false] at h
  rcases h with rfl | rfl | rfl | rfl | rfl | rfl | rfl
  all_goals exact ⟨fun rest => rfl, ⟨_, [], rfl, by decide, by decide⟩,
    List.forall_mem_singleton.2 (by decide)⟩

/-- The four hexadecimal digits of a code point. -/
def codeDigits (n : Nat) : List Char :=
  [n / 4096 % 16, n / 256 % 16, n / 16 % 16, n % 16].map hexDigit

theorem readCode_codeDigits : ∀ n < 0x80, readCode 4 (codeDigits n) = some (Char.ofNat n, []) := by
  decide +kernel

theorem isPlain_hexDigit : ∀ n < 16, isPlain (hexDigit n) = true := by
  decide

theorem isPlain_of_mem_codeDigits {n : Nat} {c : Char} (h : c ∈ codeDigits n) :
    isPlain c = true := by
  obtain ⟨k, hk, rfl⟩ := List.mem_map.1 h
  refine isPlain_hexDigit k ?_
  simp only [List.mem_cons, List.not_mem_nil, or_false] at hk
  omega

theorem isEscape_codeDigits {c : Char} (h : c.toNat < 0x80) :
    IsEscape ('u' :: codeDigits c.toNat) c where
  reads rest := by
    have hlength : (codeDigits c.toNat).length = 4 := rfl
    change readCode 4 (codeDigits c.toNat ++ rest) = _
    rw [readCode_append hlength, readCode_codeDigits _ h, Char.ofNat_toNat]
    rfl
  visible := ⟨'u', _, rfl, by decide, by decide⟩
  plain := by
    rw [List.forall_mem_cons]
    exact ⟨by decide, fun d hd => isPlain_of_mem_codeDigits hd⟩

theorem lt_of_isPlain_eq_false {c : Char} (h : isPlain c = false) : c.toNat < 0x80 := by
  simp only [isPlain, Bool.or_eq_false_iff, Bool.and_eq_false_iff, decide_eq_false_iff_not] at h
  omega

theorem escaped_cases (c : Char) :
    (isPlain c = true ∧ c ≠ '\\' ∧ c ≠ '"' ∧ escaped c = [c]) ∨
      ∃ e, escaped c = '\\' :: e ∧ IsEscape e c := by
  rw [escaped]
  cases hfind : letterEscapes.find? fun entry => entry.2 = c with
  | some entry =>
      have hentry := List.find?_some hfind
      obtain rfl : entry.2 = c := of_decide_eq_true hentry
      exact .inr ⟨[entry.1], rfl, isEscape_of_mem (List.mem_of_find?_eq_some hfind)⟩
  | none =>
      have hentries := List.find?_eq_none.1 hfind
      cases hplain : isPlain c with
      | true =>
          refine .inl ⟨rfl, ?_, ?_, rfl⟩ <;> rintro rfl <;> exact absurd hentries (by decide)
      | false => exact .inr ⟨_, rfl, isEscape_codeDigits (lt_of_isPlain_eq_false hplain)⟩

end Escapes

namespace Style

variable {st : Style}

theorem quote_of_escapes (h : st.escapes = true) : st.quote = '"' := by
  cases st with
  | basic | multilineBasic => rfl
  | literal | multilineLiteral => cases h

theorem leadingQuotes_lt_width {cs : List Char} (h : occurs st.delimiter cs = false) :
    st.leadingQuotes cs < st.width := by
  refine Nat.lt_of_not_le fun hle => ?_
  have hquotes : ∀ c ∈ cs.takeWhile (· = st.quote), c = st.quote := fun c hc =>
    of_decide_eq_true (List.all_eq_true.1 List.all_takeWhile c hc)
  obtain ⟨more, hmore⟩ := Nat.exists_eq_add_of_le hle
  have hprefix : st.delimiter <+: cs := by
    refine List.IsPrefix.trans ?_ (List.takeWhile_prefix (· = st.quote))
    rw [List.eq_replicate_of_mem hquotes]
    change List.replicate st.width st.quote <+: List.replicate (st.leadingQuotes cs) st.quote
    rw [hmore, ← List.replicate_append_replicate]
    exact List.prefix_append _ _
  cases cs with
  | nil => exact absurd hle (Nat.not_le.2 st.width_pos)
  | cons c cs =>
      rw [occurs, Bool.or_eq_false_iff] at h
      rw [List.isPrefixOf_iff_prefix.2 hprefix] at h
      cases h.1

theorem denotes_of_holds {cs : List Char} (hst : st.escapes = false) (h : st.holds cs = true) :
    st.Denotes cs cs := by
  induction cs with
  | nil => exact .nil
  | cons c cs ih =>
      simp only [holds, hst, Bool.false_and, Bool.not_false, Bool.and_true, Bool.and_eq_true,
        Bool.not_eq_eq_eq_not, Bool.not_true] at h ih
      obtain ⟨hplain, hoccurs⟩ := h
      have hcs := hoccurs
      rw [List.all_cons, Bool.and_eq_true, Bool.or_eq_true, Bool.and_eq_true,
        decide_eq_true_eq] at hplain
      rw [occurs, Bool.or_eq_false_iff] at hcs
      exact .plain hplain.1 (by simp [hst]) (leadingQuotes_lt_width hoccurs) (ih ⟨hplain.2, hcs.2⟩)

theorem denotes_writeEscaped (hst : st.escapes = true) (cs : List Char) {run : Nat}
    (hrun : run < st.width) :
    st.Denotes (st.writeEscaped run cs) cs ∧
    st.leadingQuotes (st.writeEscaped run cs) + run < st.width := by
  -- What is written in a basic style denotes the text, and the quotes that it begins with, after a
  -- run of quotes before it, make no delimiter.
  induction cs generalizing run with
  | nil => exact ⟨.nil, by simpa [writeEscaped, leadingQuotes] using hrun⟩
  | cons c cs ih =>
      have hescape : ∀ {e : List Char}, escaped c = '\\' :: e → IsEscape e c →
          st.Denotes (escaped c ++ st.writeEscaped 0 cs) (c :: cs) ∧
            st.leadingQuotes (escaped c ++ st.writeEscaped 0 cs) + run < st.width := by
        intro e hc he
        rw [hc, List.cons_append, leadingQuotes_eq_zero st.quote_ne_backslash.symm, Nat.zero_add]
        exact ⟨.escape hst he (ih st.width_pos).1, hrun⟩
      have hplain : c ≠ st.quote → isPlain c = true ∨ st.isMultiline = true ∧ c = '\n' → c ≠ '\\' →
          st.Denotes (c :: st.writeEscaped 0 cs) (c :: cs) ∧
            st.leadingQuotes (c :: st.writeEscaped 0 cs) + run < st.width := by
        intro hquote hc hbackslash
        refine ⟨.plain hc (fun _ => hbackslash) ?_ (ih st.width_pos).1, ?_⟩
        · rw [leadingQuotes_eq_zero hquote]
          exact st.width_pos
        · rwa [leadingQuotes_eq_zero hquote, Nat.zero_add]
      rw [writeEscaped]
      split
      · next hquote =>
          subst hquote
          split
          · next hfits =>
              obtain ⟨hw, hquotes⟩ := ih hfits
              have hplain' : isPlain st.quote = true := by cases st <;> decide
              refine ⟨.plain (.inl hplain') (fun _ => st.quote_ne_backslash) ?_ hw, ?_⟩ <;>
                rw [leadingQuotes_cons_quote] <;> omega
          · rcases escaped_cases st.quote with ⟨-, -, hne, -⟩ | ⟨e, hc, he⟩
            · exact absurd (quote_of_escapes hst) hne
            · exact hescape hc he
      · next hquote =>
          split
          · next hbreak =>
              rw [Bool.and_eq_true, decide_eq_true_eq] at hbreak
              exact hplain hquote (.inr hbreak) (by rw [hbreak.2]; decide)
          · rcases escaped_cases c with ⟨hc, hbackslash, -, hself⟩ | ⟨e, hc, he⟩
            · rw [hself]
              exact hplain hquote (.inl hc) hbackslash
            · exact hescape hc he

/-- What is written between the delimiters. -/
def written (st : Style) (cs : List Char) : List Char :=
  if st.escapes then st.writeEscaped 0 cs else cs

theorem escapes_or_holds_choose (cs : List Char) :
    (choose cs).escapes = true ∨ (choose cs).holds cs = true := by
  rw [choose]
  cases hfind : [basic, literal, multilineBasic, multilineLiteral].find? fun st => st.holds cs with
  | some st =>
      have hholds := List.find?_some hfind
      exact .inr hholds
  | none =>
      rw [Option.getD_none]
      left
      split <;> rfl

theorem denotes_written {cs : List Char} (h : st.escapes = true ∨ st.holds cs = true) :
    st.Denotes (st.written cs) cs ∧ st.leadingQuotes (st.written cs) < st.width := by
  rw [written]
  cases hst : st.escapes with
  | true => exact denotes_writeEscaped hst cs st.width_pos
  | false =>
      have hholds : st.holds cs = true := h.resolve_left (by simp [hst])
      have hoccurs : occurs st.delimiter cs = false := by
        simp only [holds, Bool.and_eq_true] at hholds
        simpa using hholds.2
      exact ⟨denotes_of_holds hst hholds, leadingQuotes_lt_width hoccurs⟩

theorem write_append (st : Style) (cs rest : List Char) :
    st.write cs ++ rest =
      st.delimiter ++
        ((if st.isMultiline then ['\n'] else []) ++ (st.written cs ++ (st.delimiter ++ rest))) := by
  simp only [write, written, List.append_assoc]

theorem skipNewline_break (st : Style) (w : List Char) :
    (if st.isMultiline then skipNewline ((if st.isMultiline then ['\n'] else []) ++ w)
      else (if st.isMultiline then ['\n'] else []) ++ w) = w := by
  cases st.isMultiline <;> rfl

theorem ne_two_quotes (hst : st.isMultiline = false) {w rest : List Char}
    (hw : st.leadingQuotes w < st.width) (hrest : ∀ c ∈ rest.head?, c ≠ st.quote)
    (more : List Char) :
    w ++ (st.delimiter ++ rest) ≠ st.quote :: st.quote :: more := by
  have hwidth : st.width = 1 := by rw [width, hst]; rfl
  rw [hwidth] at hw
  rw [delimiter, hwidth]
  cases w with
  | nil =>
      rintro ⟨⟩
      exact hrest st.quote rfl rfl
  | cons c w =>
      intro h
      obtain rfl : c = st.quote := (List.cons.inj h).1
      rw [leadingQuotes_cons_quote] at hw
      omega

theorem isPrefixOf?_quotes {c : Char} {body : List Char} (h : ∀ more, body ≠ c :: c :: more) :
    [c, c, c].isPrefixOf? (c :: body) = none := by
  refine Option.eq_none_iff_forall_ne_some.2 fun more hmore => ?_
  have happend : [c, c, c] ++ more = c :: body := List.isPrefixOf?_eq_some_iff_append_eq.1 hmore
  exact h more (List.cons.inj happend).2.symm

theorem findSome?_delimiter {body : List Char}
    (h : st.isMultiline = false → ∀ more, body ≠ st.quote :: st.quote :: more) :
    ([multilineBasic, basic, multilineLiteral, literal].findSome? fun style =>
      (style.delimiter.isPrefixOf? (st.delimiter ++ body)).map fun body =>
        (style, body)) = some (st, body) := by
  cases st with
  | multilineBasic => rfl
  | multilineLiteral => rfl
  | basic =>
      have hnone : multilineBasic.delimiter.isPrefixOf? (basic.delimiter ++ body) = none :=
        isPrefixOf?_quotes (h rfl)
      rw [List.findSome?_cons, hnone]
      rfl
  | literal =>
      have hnone : multilineLiteral.delimiter.isPrefixOf? (literal.delimiter ++ body) = none :=
        isPrefixOf?_quotes (h rfl)
      rw [List.findSome?_cons, List.findSome?_cons, List.findSome?_cons, hnone]
      rfl

end Style

/-- A written text is read as that text. -/
theorem readText_writeText (s : String) {rest : List Char}
    (hrest : ∀ c ∈ rest.head?, c ≠ '"' ∧ c ≠ '\'') :
    readText (writeText s ++ rest) = some (s, rest) := by
  have hchoose := Style.escapes_or_holds_choose s.toList
  rw [writeText]
  generalize Style.choose s.toList = st at hchoose
  obtain ⟨hdenotes, hquotes⟩ := Style.denotes_written hchoose
  have hquote : ∀ c ∈ rest.head?, c ≠ st.quote := by
    intro c hc
    cases st with
    | basic | multilineBasic => exact (hrest c hc).1
    | literal | multilineLiteral => exact (hrest c hc).2
  have hopens : st.isMultiline = false → ∀ more, (if st.isMultiline then ['\n'] else []) ++
      (st.written s.toList ++ (st.delimiter ++ rest)) ≠ st.quote :: st.quote :: more := by
    intro hst
    rw [hst]
    exact Style.ne_two_quotes hst hquotes hquote
  rw [Style.write_append, readText, readTextIn, Style.findSome?_delimiter hopens]
  simp only [Option.bind_eq_bind, Option.bind_some, st.skipNewline_break, hdenotes.readBody hquote,
    String.ofList_toList, Option.pure_def]

theorem isPlain_or_newline_of_mem_writeText {s : String} {c : Char} (h : c ∈ writeText s) :
    isPlain c = true ∨ c = '\n' := by
  have hdenotes := (Style.denotes_written (Style.escapes_or_holds_choose s.toList)).1
  rw [writeText] at h
  generalize Style.choose s.toList = st at h hdenotes
  have hdelimiter : c ∈ st.delimiter → isPlain c = true := by
    intro hc
    rw [List.eq_of_mem_replicate hc]
    cases st <;> decide
  have hbreak : c ∈ (if st.isMultiline then ['\n'] else []) → c = '\n' := by
    cases st.isMultiline
    · exact fun hc => absurd hc List.not_mem_nil
    · exact List.eq_of_mem_singleton
  rw [← List.append_nil (st.write _), Style.write_append] at h
  simp only [List.mem_append, List.not_mem_nil, or_false] at h
  rcases h with hc | hc | hc | hc
  · exact .inl (hdelimiter hc)
  · exact .inr (hbreak hc)
  · exact hdenotes.isPlain_or_newline c hc
  · exact .inl (hdelimiter hc)

end TalkingCalculator.Toml
