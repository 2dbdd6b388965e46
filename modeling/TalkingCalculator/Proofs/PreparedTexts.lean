import Mathlib.Data.List.DropRight
import TalkingCalculator.Proofs.PermittedTexts

namespace TalkingCalculator

open Input Lexer

namespace Text

theorem dropEndWhile_eq_rdropWhile (p : Char → Bool) (cs : List Char) :
    dropEndWhile p cs = cs.rdropWhile p :=
  rfl

theorem trim_eq_nil_iff (cs : List Char) : trim cs = [] ↔ ∀ c ∈ cs, isBlank c = true := by
  rw [trim, trimEnd, dropEndWhile_eq_rdropWhile, List.rdropWhile_eq_nil_iff]
  constructor
  · intro h
    rw [← List.takeWhile_append_dropWhile (l := cs) (p := isBlank)]
    intro c hc
    rcases List.mem_append.1 hc with hc | hc
    · exact List.all_eq_true.1 (List.all_takeWhile (l := cs)) c hc
    · exact h c hc
  · exact fun h c hc => h c ((List.dropWhile_sublist isBlank).mem hc)

theorem exists_of_dropEndWhile (p : Char → Bool) (cs : List Char) :
    ∃ run, cs = dropEndWhile p cs ++ run ∧ ∀ c ∈ run, p c = true :=
  ⟨cs.rtakeWhile p, List.rdropWhile_append_rtakeWhile.symm, fun _ => List.mem_rtakeWhile_imp⟩

theorem getLast?_dropEndWhile (p : Char → Bool) (cs : List Char) :
    ∀ c ∈ (dropEndWhile p cs).getLast?, p c = false := by
  intro c hc
  obtain ⟨hne, rfl⟩ := List.mem_getLast?_eq_getLast hc
  exact Bool.eq_false_iff.2 (List.rdropWhile_last_not p cs hne)

theorem dropEndWhile_append_run {p : Char → Bool} {cs run : List Char}
    (hlast : ∀ c ∈ cs.getLast?, p c = false) (hrun : ∀ c ∈ run, p c = true) :
    dropEndWhile p (cs ++ run) = cs := by
  have hdrop : dropEndWhile p (cs ++ run) = cs.rdropWhile p := by
    rw [dropEndWhile, List.reverse_append,
      List.dropWhile_append_of_pos fun c hc => hrun c (List.mem_reverse.1 hc), List.rdropWhile]
  rw [hdrop, List.rdropWhile_eq_self_iff]
  intro hne
  rw [hlast _ (List.getLast_mem_getLast? hne)]
  exact Bool.false_ne_true

theorem exists_of_trim (cs : List Char) :
    ∃ before after, cs = before ++ trim cs ++ after ∧ (∀ c ∈ before, isBlank c = true) ∧
      ∀ c ∈ after, isBlank c = true := by
  obtain ⟨run, hcs, hrun⟩ := exists_of_dropEndWhile isBlank (cs.dropWhile isBlank)
  refine ⟨cs.takeWhile isBlank, run, ?_, List.all_eq_true.1 List.all_takeWhile, hrun⟩
  rw [trim, trimEnd, List.append_assoc, ← hcs, List.takeWhile_append_dropWhile]

end Text

theorem Numeral.mem_text {n : Numeral} {c : Char} (hc : c ∈ n.text) :
    isMantissa c = true ∨ c = 'e' ∨ c = '+' ∨ c = '-' := by
  rcases List.mem_append.1 hc with hc | hc
  · exact .inl (n.mantissa.isMantissa_of_mem hc)
  · cases he : n.exponent with
    | none => simp [he] at hc
    | some e =>
        have hsign : c ∈ e.sign → c = '+' ∨ c = '-' := by
          rcases e.sign_eq with h | h | h <;> simp +contextual [h]
        simp only [he, Option.elim_some, Exponent.text, List.mem_cons, List.mem_append] at hc
        rcases hc with hc | hc | hc
        · exact .inr (.inl hc)
        · exact .inr (.inr (hsign hc))
        · exact .inl (by simp [isMantissa, e.isDigit c hc])

namespace Lexeme

theorem Spells.isVisible {w : List Char} {l : Lexeme} (h : l.Spells w) : ∀ c ∈ w, IsVisible c := by
  intro c hc
  cases hl : l.isWord with
  | false =>
      obtain ⟨d, t, rfl, rfl, hd⟩ := h.exists_symbol hl
      obtain rfl : c = d := by simpa using hc
      exact (isVisible_of_symbolToken? hd).1
  | true =>
      cases h with
      | numeral n =>
          rcases Numeral.mem_text hc with hc | rfl | rfl | rfl
          · exact isVisible_of_isMantissa hc
          · decide
          · decide
          · decide
      | percentage m =>
          rcases List.mem_append.1 hc with hc | hc
          · exact isVisible_of_isMantissa (m.isMantissa_of_mem hc)
          · obtain rfl := List.mem_singleton.1 hc
            decide
      | pi => exact isVisible_of_isAlpha (isAlpha_of_mem_pi c hc)
      | euler => exact isVisible_of_isAlpha (isAlpha_of_mem_euler c hc)
      | name w hw => exact isVisible_of_isAlpha ((isAlpha_of_mem_name hw).2 c hc)
      | _ => cases hl

end Lexeme

theorem Writes.isVisible {cs : List Char} {ls : List Lexeme} (h : Writes cs ls) :
    ∀ c ∈ cs, IsVisible c ∨ Text.isBlank c = true := by
  induction h with
  | nil => simp
  | blank hc h ih => exact List.forall_mem_cons.2 ⟨.inr hc, ih⟩
  | lexeme hw hpercent h ih =>
      intro c hc
      rcases List.mem_append.1 hc with hc | hc
      · exact .inl (hw.isVisible c hc)
      · exact ih c hc

theorem replaceGlyphs_of_isVisible {cs : List Char}
    (h : ∀ c ∈ cs, IsVisible c ∨ Text.isBlank c = true) :
    replaceGlyphs cs = cs := by
  induction cs with
  | nil => rfl
  | cons c cs ih =>
      rw [replaceGlyphs, List.flatMap_cons, plain_eq_singleton (h c (by simp))]
      exact congrArg (c :: ·) (ih fun d hd => h d (by simp [hd]))

theorem replaceGlyphs_append (cs ds : List Char) :
    replaceGlyphs (cs ++ ds) = replaceGlyphs cs ++ replaceGlyphs ds :=
  List.flatMap_append

theorem DrawnAs.replaceGlyphs {cs ws : List Char} (h : DrawnAs cs ws)
    (hws : ∀ c ∈ ws, IsVisible c ∨ Text.isBlank c = true) : replaceGlyphs cs = ws := by
  induction h with
  | nil => rfl
  | same c h ih =>
      rw [Input.replaceGlyphs, List.flatMap_cons, plain_eq_singleton (hws c (by simp))]
      exact congrArg (c :: ·) (ih fun d hd => hws d (by simp [hd]))
  | times h ih => exact congrArg ('*' :: ·) (ih fun d hd => hws d (by simp [hd]))
  | divided h ih => exact congrArg ('/' :: ·) (ih fun d hd => hws d (by simp [hd]))
  | minus h ih => exact congrArg ('-' :: ·) (ih fun d hd => hws d (by simp [hd]))
  | pi h ih => exact congrArg ('P' :: 'I' :: ·) (ih fun d hd => hws d (by simp [hd]))

namespace Writes

theorem of_spells {w : List Char} {l : Lexeme} (hw : l.Spells w) : Writes w [l] := by
  have hwrites := Writes.lexeme hw (by simp) .nil
  rwa [List.append_nil] at hwrites

theorem operator (op : BinaryOperator) {cs : List Char} {ls : List Lexeme} (h : Writes cs ls) :
    Writes (op.symbol :: cs) (.token (.operator op) :: ls) := by
  refine .lexeme (.operator op) (fun c hc hmantissa => ?_) h
  obtain rfl : op.symbol = c := by simpa using hc
  rw [isMantissa_of_symbolToken? (symbolToken?_symbol op)] at hmantissa
  cases hmantissa

theorem append {cs ds : List Char} {ls ms : List Lexeme} (h : Writes cs ls) (hds : Writes ds ms)
    (hhead : ds.head? ≠ some '%') : Writes (cs ++ ds) (ls ++ ms) := by
  induction h with
  | nil => exact hds
  | blank hc h ih => exact .blank hc ih
  | @lexeme w cs l ls hw hpercent h ih =>
      rw [List.append_assoc]
      refine .lexeme hw (fun c hc hmantissa => ?_) ih
      cases cs with
      | nil => exact hhead
      | cons d cs => exact hpercent c hc hmantissa

theorem of_forall_isBlank {cs : List Char} (h : ∀ c ∈ cs, Text.isBlank c = true) :
    Writes cs [] := by
  induction cs with
  | nil => exact .nil
  | cons c cs ih => exact .blank (h c (by simp)) (ih fun d hd => h d (by simp [hd]))

theorem append_blanks {cs ds : List Char} {ls : List Lexeme} (h : Writes cs ls)
    (hds : ∀ c ∈ ds, Text.isBlank c = true) : Writes (cs ++ ds) ls := by
  have hhead : ds.head? ≠ some '%' := by
    intro hhead
    exact absurd (hds '%' (List.mem_of_mem_head? hhead)) (by decide)
  have hwrites := h.append (of_forall_isBlank hds) hhead
  rwa [List.append_nil] at hwrites

theorem blanks_append {cs ds : List Char} {ls : List Lexeme} (h : Writes cs ls)
    (hds : ∀ c ∈ ds, Text.isBlank c = true) : Writes (ds ++ cs) ls := by
  induction ds with
  | nil => exact h
  | cons c ds ih => exact .blank (hds c (by simp)) (ih fun d hd => hds d (by simp [hd]))

theorem of_blank {c : Char} {cs : List Char} {ls : List Lexeme} (h : Writes (c :: cs) ls)
    (hc : Text.isBlank c = true) : Writes cs ls := by
  generalize hds : c :: cs = ds at h
  cases h with
  | nil => cases hds
  | blank hd h =>
      cases hds
      exact h
  | lexeme hw hpercent h =>
      obtain ⟨d, w, rfl⟩ := List.exists_cons_of_ne_nil hw.ne_nil
      cases hds
      exact absurd (hw.isVisible c (by simp)) (not_isVisible_of_isBlank hc)

theorem of_blanks_append {cs ds : List Char} {ls : List Lexeme} (h : Writes (ds ++ cs) ls)
    (hds : ∀ c ∈ ds, Text.isBlank c = true) : Writes cs ls := by
  induction ds with
  | nil => exact h
  | cons c ds ih =>
      exact ih (h.of_blank (hds c (by simp))) fun d hd => hds d (by simp [hd])

theorem of_append_blanks {cs ds : List Char} {ls : List Lexeme} (h : Writes (cs ++ ds) ls)
    (hds : ∀ c ∈ ds, Text.isBlank c = true) : Writes cs ls := by
  generalize hall : cs ++ ds = all at h
  induction h generalizing cs with
  | nil =>
      obtain ⟨rfl, rfl⟩ := List.append_eq_nil_iff.1 hall
      exact .nil
  | @blank c rest ls hc h ih =>
      cases cs with
      | nil =>
          have h' : Writes (ds ++ []) ls := by
            rw [List.append_nil]
            rw [List.nil_append] at hall
            exact hall ▸ Writes.blank hc h
          exact of_blanks_append h' hds
      | cons d cs =>
          obtain ⟨rfl, hrest⟩ := List.cons_eq_cons.1 hall
          exact .blank hc (ih hrest)
  | @lexeme w rest l ls hw hpercent h ih =>
      rcases List.append_eq_append_iff.1 hall with ⟨extra, rfl, rfl⟩ | ⟨kept, rfl, rfl⟩
      · -- the characters of a lexeme are no blanks, so it ends before them
        cases extra with
        | nil =>
            rw [List.append_nil] at hw
            have hrest : Writes [] ls := ih rfl
            simpa using Writes.lexeme hw (by simp) hrest
        | cons c extra =>
            have hc := hw.isVisible c (by simp)
            exact absurd hc (not_isVisible_of_isBlank (hds c (by simp)))
      · refine .lexeme hw (fun c hc hmantissa hhead => hpercent c hc hmantissa ?_) (ih rfl)
        rw [List.head?_append, hhead]
        rfl

theorem exists_of_cons {cs : List Char} {l : Lexeme} {ls : List Lexeme} (h : Writes cs (l :: ls)) :
    ∃ before w rest, cs = before ++ (w ++ rest) ∧ (∀ c ∈ before, Text.isBlank c = true) ∧
      l.Spells w ∧ Writes rest ls := by
  generalize hall : l :: ls = all at h
  induction h with
  | nil => cases hall
  | @blank c cs ls' hc h ih =>
      obtain ⟨before, w, rest, rfl, hbefore, hw, hrest⟩ := ih hall
      exact ⟨c :: before, w, rest, rfl, List.forall_mem_cons.2 ⟨hc, hbefore⟩, hw, hrest⟩
  | @lexeme w cs l' ls' hw hpercent h ih =>
      cases hall
      exact ⟨[], w, cs, rfl, by simp, hw, h⟩

theorem exists_of_append {cs : List Char} {ls ms : List Lexeme} (h : Writes cs (ls ++ ms)) :
    ∃ before rest, cs = before ++ rest ∧ Writes rest ms := by
  induction ls generalizing cs with
  | nil => exact ⟨[], cs, rfl, h⟩
  | cons l ls ih =>
      obtain ⟨blanks, w, rest, rfl, -, -, hrest⟩ := h.exists_of_cons
      obtain ⟨before, rest, rfl, hms⟩ := ih hrest
      exact ⟨blanks ++ (w ++ before), rest, by simp, hms⟩

theorem eq_nil {ls : List Lexeme} (h : Writes [] ls) : ls = [] := by
  generalize hcs : [] = cs at h
  cases h with
  | nil => rfl
  | blank hc h => cases hcs
  | lexeme hw hpercent h => exact absurd (List.append_eq_nil_iff.1 hcs.symm).1 hw.ne_nil

theorem isBlank_of_mem {cs : List Char} (h : Writes cs []) : ∀ c ∈ cs, Text.isBlank c = true := by
  generalize hls : [] = ls at h
  induction h with
  | nil => simp
  | blank hc h ih => exact List.forall_mem_cons.2 ⟨hc, ih hls⟩
  | lexeme hw hpercent h => cases hls

theorem exists_of_concat {cs : List Char} {l : Lexeme} {ls : List Lexeme}
    (h : Writes cs (ls ++ [l])) :
    ∃ before w, Text.trimEnd cs = before ++ w ∧ l.Spells w := by
  obtain ⟨before, rest, rfl, hrest⟩ := h.exists_of_append
  obtain ⟨blanks, w, run, rfl, -, hw, hrun⟩ := hrest.exists_of_cons
  have hlast : ∀ c ∈ (before ++ blanks ++ w).getLast?, Text.isBlank c = false := by
    intro c hc
    rw [List.getLast?_append_of_ne_nil _ hw.ne_nil] at hc
    exact isBlank_eq_false (hw.isVisible c (List.mem_of_mem_getLast? hc))
  refine ⟨before ++ blanks, w, ?_, hw⟩
  have hcs : before ++ (blanks ++ (w ++ run)) = before ++ blanks ++ w ++ run := by simp
  rw [hcs]
  exact Text.dropEndWhile_append_run hlast hrun.isBlank_of_mem

end Writes

theorem writes_replaceGlyphs_trim_iff {cs : List Char} {ls : List Lexeme} :
    Writes (replaceGlyphs (Text.trim cs)) ls ↔ Writes (replaceGlyphs cs) ls := by
  obtain ⟨before, after, hcs, hbefore, hafter⟩ := Text.exists_of_trim cs
  have hsplit : replaceGlyphs cs = before ++ replaceGlyphs (Text.trim cs) ++ after := by
    conv_lhs => rw [hcs]
    rw [replaceGlyphs_append, replaceGlyphs_append,
      replaceGlyphs_of_isVisible fun c hc => .inr (hbefore c hc),
        replaceGlyphs_of_isVisible fun c hc => .inr (hafter c hc)]
  rw [hsplit]
  constructor
  · intro h
    exact (h.blanks_append hbefore).append_blanks hafter
  · intro h
    exact (h.of_append_blanks hafter).of_blanks_append hbefore

theorem Lexeme.tokens_ne_nil (l : Lexeme) : l.tokens ≠ [] := by
  cases l <;> simp [Lexeme.tokens]

theorem prepare_of_writes {s : String} {ls : List Lexeme} (h : Writes (replaceGlyphs s.toList) ls)
    (hchain : ls.IsChain Lexeme.Separable) (hne : ls ≠ []) :
    prepare s = .ok (String.ofList (expandPercent (replaceGlyphs (Text.trim s.toList)))) := by
  have htrim := writes_replaceGlyphs_trim_iff.2 h
  have htrim_ne : Text.trim s.toList ≠ [] := by
    intro hnil
    rw [hnil] at htrim
    exact hne htrim.eq_nil
  have hexpanded_ne : expandPercent (replaceGlyphs (Text.trim s.toList)) ≠ [] := by
    intro hnil
    have htokens := tokens_of_writes htrim hchain
    rw [hnil, tokens] at htokens
    obtain ⟨l, ls, rfl⟩ := List.exists_cons_of_ne_nil hne
    simp [l.tokens_ne_nil] at htokens
  have hcheck : check (String.ofList (expandPercent (replaceGlyphs (Text.trim s.toList)))) =
      .ok () := by
    rw [check, if_pos]
    rw [String.toList_ofList]
    exact ⟨hexpanded_ne, isSequence_of_writes htrim hchain⟩
  simp only [prepare, if_neg htrim_ne, hcheck]
  rfl

end TalkingCalculator
