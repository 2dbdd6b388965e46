import Mathlib.Data.List.Infix
import TalkingCalculator.Proofs.PostfixOrder
import TalkingCalculator.Proofs.TextTokens

namespace TalkingCalculator

open Grammar Input Lexeme Lexer

def orderText (s : String) : Except Fault (List Token) :=
  prepare s >>= fun prepared => tokenize prepared >>= toPostfix

theorem orderText_eq (s : String) : orderText s = textTokens s >>= toPostfix :=
  (bind_assoc _ _ _).symm

/-- Whether each function name in a text is followed by an opening parenthesis, with nothing but
blanks before it. -/
def NamesOpen (cs : List Char) : Prop :=
  ∀ before w after, cs = before ++ (w.toList ++ after) → (arity? w).isSome = true →
    (after.dropWhile Text.isBlank).head? = some '('

namespace Lexeme

def isName : Lexeme → Bool
  | token (.name _) => true
  | _ => false

def Opened : List Lexeme → Prop
  | [] => True
  | l :: ls => (l.isName = true → ls.head? = some (token .opening)) ∧ Opened ls

theorem Opened.append {ls ms : List Lexeme} (hl : Opened ls) (hm : Opened ms) :
    Opened (ls ++ ms) := by
  induction ls with
  | nil => exact hm
  | cons l ls ih =>
      refine ⟨fun hname => ?_, ih hl.2⟩
      change (ls ++ ms).head? = _
      rw [List.head?_append, hl.1 hname]
      rfl

theorem Opened.cons {l : Lexeme} {ls : List Lexeme} (hl : l.isName = false) (h : Opened ls) :
    Opened (l :: ls) := by
  refine ⟨fun hname => ?_, h⟩
  rw [hl] at hname
  cases hname

theorem opened_of_derives {level : Tier} {ls : List Lexeme} {t : Tree}
    (h : Derives Lexeme.token IsOperand level ls t) : Opened ls := by
  have hclosing : Opened [token .closing] := .cons rfl trivial
  induction h with
  | operand h =>
      cases h with
      | token h => cases h <;> exact .cons rfl trivial
      | percentage x => exact .cons rfl trivial
  | parentheses h ih => exact .cons rfl (ih.append hclosing)
  | call f h ih => exact ⟨fun _ => rfl, .cons rfl (ih.append hclosing)⟩
  | power ha hb iha ihb =>
      exact ⟨fun _ => rfl, .cons rfl (iha.append (.cons rfl (ihb.append hclosing)))⟩
  | ofAtom h ih | ofFactor h ih | ofProduct h ih => exact ih
  | minus h ih | plus h ih => exact .cons rfl ih
  | product hop ha hb iha ihb | sum hop ha hb iha ihb => exact iha.append (.cons rfl ihb)

theorem Spells.exists_name {w : List Char} {l : Lexeme} {c : Char} (h : l.Spells w) (hmem : c ∈ w)
    (halpha : c.isAlpha = true) (hne : c ∉ ['e', 'P', 'I']) :
    ∃ v : String, l = token (.name v) ∧ w = v.toList ∧ (arity? v).isSome = true := by
  have hmantissa : isMantissa c ≠ true := by simp [isMantissa_eq_false halpha]
  cases hl : l.isWord with
  | false =>
      obtain ⟨d, t, rfl, rfl, hd⟩ := h.exists_symbol hl
      obtain rfl := List.mem_singleton.1 hmem
      have hwordy := (isVisible_of_symbolToken? hd).2
      simp [isWordy, halpha] at hwordy
  | true =>
      cases h with
      | numeral n =>
          rcases Numeral.mem_text hmem with h | rfl | rfl | rfl
          · exact absurd h hmantissa
          · exact absurd (by simp) hne
          · exact absurd halpha (by decide)
          · exact absurd halpha (by decide)
      | percentage m =>
          rcases List.mem_append.1 hmem with h | h
          · exact absurd (m.isMantissa_of_mem h) hmantissa
          · obtain rfl := List.mem_singleton.1 h
            exact absurd halpha (by decide)
      | pi => exact absurd (List.mem_cons_of_mem _ hmem) hne
      | euler =>
          obtain rfl := List.mem_singleton.1 hmem
          exact absurd (by simp) hne
      | name v hv => exact ⟨v, rfl, rfl, hv⟩
      | _ => cases hl

end Lexeme

namespace Writes

theorem head?_dropWhile {cs : List Char} {l : Lexeme} {ls : List Lexeme} (h : Writes cs (l :: ls)) :
    ∃ w, l.Spells w ∧ (cs.dropWhile Text.isBlank).head? = w.head? := by
  obtain ⟨before, w, rest, rfl, hbefore, hw, -⟩ := h.exists_of_cons
  obtain ⟨c, w, rfl⟩ := List.exists_cons_of_ne_nil hw.ne_nil
  have hc : Text.isBlank c = false := isBlank_eq_false (hw.isVisible c (by simp))
  refine ⟨c :: w, hw, ?_⟩
  rw [dropWhile_run hbefore (by simp [hc])]
  rfl

end Writes

theorem eq_of_infix_of_arity? {v w : String} (hv : (arity? v).isSome = true)
    (hw : (arity? w).isSome = true) (h : w.toList <:+: v.toList) : w.toList = v.toList := by
  have hnames : ∀ v ∈ names, ∀ w ∈ names, w <:+: v → w = v := by decide
  exact hnames _ (mem_names_of_arity? hv) _ (mem_names_of_arity? hw) h

theorem exists_head_of_arity? {w : String} (hw : (arity? w).isSome = true) :
    ∃ c cs, w.toList = c :: cs ∧ c.isAlpha = true ∧ c ∉ ['e', 'P', 'I'] := by
  obtain ⟨count, hcount⟩ := Option.isSome_iff_exists.1 hw
  rcases arity?_eq_some_iff.1 hcount with ⟨rfl, -⟩ | ⟨f, rfl, -⟩
  · exact ⟨'p', ['o', 'w'], by decide⟩
  · cases f <;> exact ⟨_, _, rfl, by decide, by decide⟩

theorem eq_of_name_inside_name {v w : String} {before inner after rest : List Char}
    (hv : (arity? v).isSome = true) (hw : (arity? w).isSome = true)
    (hsplit : v.toList = before ++ inner) (hcs : inner ++ rest = w.toList ++ after)
    (hrest : ∀ c ∈ rest.head?, c.isAlpha = false) : after = rest := by
  -- A name that begins inside a name, after which no letter comes, ends with it.
  rcases List.append_eq_append_iff.1 hcs with ⟨more, hmore, hrest'⟩ | ⟨more, hmore, hafter⟩
  · cases more with
    | nil => exact hrest'.symm
    | cons c more =>
        have hc : c.isAlpha = true := (isAlpha_of_mem_name hw).2 c (by simp [hmore])
        rw [hrest c (by simp [hrest'])] at hc
        cases hc
  · have hinfix : w.toList <:+: v.toList := ⟨before, more, by rw [hsplit, hmore, List.append_assoc]⟩
    have hlength := congrArg List.length (eq_of_infix_of_arity? hv hw hinfix)
    rw [hsplit, hmore, List.length_append, List.length_append] at hlength
    have hnil : more = [] := List.length_eq_zero_iff.1 (by omega)
    rw [hafter, hnil, List.nil_append]

theorem isAlpha_head_of_open {cs : List Char} (h : (cs.dropWhile Text.isBlank).head? = some '(') :
    ∀ c ∈ cs.head?, c.isAlpha = false := by
  intro c hc
  obtain ⟨rest, rfl⟩ := List.head?_eq_some_iff.1 hc
  cases halpha : c.isAlpha with
  | false => rfl
  | true =>
      rw [List.dropWhile_cons_of_neg
        (by simp [isBlank_eq_false (isVisible_of_isAlpha halpha)])] at h
      obtain rfl : c = '(' := by simpa using h
      exact absurd halpha (by decide)

theorem Writes.namesOpen {cs : List Char} {ls : List Lexeme} (h : Writes cs ls)
    (hopened : Opened ls) :
    NamesOpen cs := by
  induction h with
  | nil =>
      intro before w after hcs hw
      obtain ⟨c, w', hname, -⟩ := exists_head_of_arity? hw
      simp [hname] at hcs
  | @blank c cs ls hc h ih =>
      intro before w after hcs hw
      obtain ⟨d, w', hname, halpha, -⟩ := exists_head_of_arity? hw
      cases before with
      | nil =>
          rw [hname] at hcs
          obtain rfl : c = d := (List.cons_eq_cons.1 hcs).1
          exact absurd (isVisible_of_isAlpha halpha) (not_isVisible_of_isBlank hc)
      | cons b before => exact ih hopened before w after (List.cons_eq_cons.1 hcs).2 hw
  | @lexeme u cs l ls hu hpercent h ih =>
      intro before w after hcs hw
      obtain ⟨d, w', hname, halpha, hd⟩ := exists_head_of_arity? hw
      rcases List.append_eq_append_iff.1 hcs with ⟨before', rfl, hrest⟩ | ⟨inner, rfl, hrest⟩
      · exact ih hopened.2 before' w after hrest hw
      cases inner with
      | nil => exact ih hopened.2 [] w after hrest.symm hw
      | cons e inner =>
          -- the name begins inside the lexeme, which is then a name itself
          rw [hname] at hrest
          obtain rfl : d = e := (List.cons_eq_cons.1 hrest).1
          obtain ⟨v, rfl, hv, harity⟩ := hu.exists_name (c := d) (by simp) halpha hd
          obtain ⟨ls, rfl⟩ := List.head?_eq_some_iff.1 (hopened.1 rfl)
          obtain ⟨p, hp, hhead⟩ := h.head?_dropWhile
          cases hp
          rw [← hname] at hrest
          rw [eq_of_name_inside_name harity hw hv.symm hrest.symm (isAlpha_head_of_open hhead)]
          exact hhead

/-- When the names in a text are open, no percentage stands for an argument. -/
theorem isExpression_of_namesOpen {cs : List Char} {ls : List Lexeme} {t : Tree}
    (hwrites : Writes cs ls) (hopen : NamesOpen cs) (ht : LooselyDerives .sum ls t) :
    Lexeme.IsExpression ls t := by
  refine ht.mono fun ys a hinfix ha => ?_
  cases ha with
  | ofIsOperand ha => exact ha
  | call f x =>
      obtain ⟨ls₁, ls₂, rfl⟩ := hinfix
      rw [List.append_assoc] at hwrites
      obtain ⟨before, rest, rfl, hrest⟩ := hwrites.exists_of_append
      obtain ⟨blanks, w, rest, rfl, -, hw, hpercentage⟩ := hrest.exists_of_cons
      obtain ⟨p, hp, hhead⟩ := hpercentage.head?_dropWhile
      cases hw with
      | name v hv =>
          rw [hopen (before ++ blanks) f.name rest (by simp) hv] at hhead
          cases hp with
          | percentage m =>
              obtain ⟨c, cs, htext⟩ := List.exists_cons_of_ne_nil m.text_ne_nil
              obtain rfl : '(' = c := by simpa [htext] using hhead
              exact absurd (m.isMantissa_of_mem (c := '(') (by simp [htext])) (by decide)

theorem exists_writes_of_toPostfix {s : String} {ordered : List Token}
    (h : orderText s = .ok ordered) :
    ∃ ls t, Writes (replaceGlyphs s.toList) ls ∧ LooselyDerives .sum ls t ∧
      ordered = t.postfixOrder := by
  rw [orderText_eq] at h
  obtain ⟨ts, htokens, hordered⟩ := exists_of_bind_eq_ok h
  obtain ⟨ls, hwrites, rfl⟩ := exists_writes_of_textTokens htokens
  obtain ⟨t, ht, hpostfix⟩ := exists_looselyDerives_of_toPostfix hordered
  exact ⟨ls, t, hwrites, ht, hpostfix⟩

theorem isExpression_iff_namesOpen {s : String} {ordered : List Token}
    (h : orderText s = .ok ordered) :
    (∃ ls t, Writes (replaceGlyphs s.toList) ls ∧ LooselyDerives .sum ls t ∧
      ordered = t.postfixOrder) ∧ ((∃ ls t, Writes (replaceGlyphs s.toList) ls ∧
        Lexeme.IsExpression ls t ∧ ordered = t.postfixOrder) ↔
        NamesOpen (replaceGlyphs s.toList)) := by
  obtain ⟨ls, t, hwrites, ht, hordered⟩ := exists_writes_of_toPostfix h
  refine ⟨⟨ls, t, hwrites, ht, hordered⟩, ?_, ?_⟩
  · rintro ⟨ls', t', hwrites', ht', -⟩
    exact hwrites'.namesOpen (opened_of_derives ht')
  · intro hopen
    exact ⟨ls, t, hwrites, isExpression_of_namesOpen hwrites hopen ht, hordered⟩

theorem isExpression_iff_namesOpen_sqrt :
    ∃ ordered, orderText "2×sqrt( 50%)" = .ok ordered ∧
      (∃ ls t, Writes (replaceGlyphs "2×sqrt( 50%)".toList) ls ∧ LooselyDerives .sum ls t ∧
        ordered = t.postfixOrder) ∧
      ((∃ ls t, Writes (replaceGlyphs "2×sqrt( 50%)".toList) ls ∧ Lexeme.IsExpression ls t ∧
        ordered = t.postfixOrder) ↔ NamesOpen (replaceGlyphs "2×sqrt( 50%)".toList)) := by
  obtain ⟨ordered, h⟩ := exists_ok_of_isSome (x := orderText "2×sqrt( 50%)") (by decide +kernel)
  exact ⟨ordered, h, isExpression_iff_namesOpen h⟩

/-- A percentage right after a function name is accepted, although it is no argument in
parentheses. -/
theorem sin_accepts_bare_percentage :
    (∃ ordered, orderText "sin50%" = .ok ordered) ∧
      ¬ ∃ cs ls t, DrawnAs "sin50%".toList cs ∧ Writes cs ls ∧ Lexeme.IsExpression ls t := by
  refine ⟨exists_ok_of_isSome (by decide +kernel), ?_⟩
  rintro ⟨cs, ls, t, hdrawn, hwrites, ht⟩
  have hcs : "sin50%".toList = cs := hdrawn.replaceGlyphs hwrites.isVisible
  have hopen := hwrites.namesOpen (opened_of_derives ht) [] "sin" "50%".toList hcs.symm rfl
  exact absurd hopen (by decide)

end TalkingCalculator
