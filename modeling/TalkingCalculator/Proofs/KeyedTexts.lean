import TalkingCalculator.Proofs.ContinuedResults
import TalkingCalculator.Proofs.FaultKinds

namespace TalkingCalculator

open Input Lexer Number

namespace Buffer

/-- Whether a character is a unit by itself. -/
def isUnitCharacter (c : Char) : Bool :=
  c.isDigit || ['.', '+', '-', '*', '/', '%', '(', ')', ',', 'e'].contains c

/-- A unit is a digit, a point, an operator, a parenthesis, a comma, the letter e, or the text of a
composite key. -/
def IsUnit (u : List Char) : Prop :=
  (∃ c, u = [c] ∧ isUnitCharacter c = true) ∨ u ∈ compositeKeys

instance (u : List Char) : Decidable (IsUnit u) :=
  decidable_of_iff (u.length = 1 ∧ u.all isUnitCharacter = true ∨ u ∈ compositeKeys) (or_congr_left
    ⟨fun ⟨hlength, hall⟩ => by
      obtain ⟨c, rfl⟩ := List.length_eq_one_iff.1 hlength
      exact ⟨c, rfl, by simpa using hall⟩, fun ⟨c, hu, hc⟩ => by simp [hu, hc]⟩)

/-- Whether a text is a sequence of units. -/
def IsKeyed (cs : List Char) : Prop :=
  ∃ us : List (List Char), (∀ u ∈ us, IsUnit u) ∧ us.flatten = cs

/-- A fragment is a unit or one letter of the text of infinity, which is erased letter by letter. -/
def IsFragment (u : List Char) : Prop :=
  IsUnit u ∨ ∃ c ∈ "Infinity".toList, u = [c]

/-- Whether a text is a sequence of parts of a kind. -/
def IsComposed (P : List Char → Prop) (cs : List Char) : Prop :=
  ∃ us : List (List Char), (∀ u ∈ us, P u) ∧ us.flatten = cs

/-- A kind of parts is an alphabet if the units are of this kind and all parts are fragments. -/
structure IsAlphabet (P : List Char → Prop) : Prop where
  of_isUnit : ∀ {u : List Char}, IsUnit u → P u
  isFragment : ∀ {u : List Char}, P u → IsFragment u

theorem isAlphabet_isUnit : IsAlphabet IsUnit :=
  ⟨id, .inl⟩

theorem isAlphabet_isFragment : IsAlphabet IsFragment :=
  ⟨.inl, id⟩

/-- A letter that stands in composite keys only. -/
def isInner (c : Char) : Bool :=
  c.isAlpha && !(['I', 'n', 'f', 'i', 't', 'y', 'e'].contains c)

section Fragments

variable {u : List Char} {us : List (List Char)}

theorem isPermitted_or_eq_of_isUnitCharacter {c : Char} (h : isUnitCharacter c = true) :
    isPermitted c = true ∧ IsVisible c ∨ c = 'e' := by
  simp only [isUnitCharacter, Bool.or_eq_true, List.contains_iff_mem] at h
  rcases h with hdigit | hsign
  · exact .inl ⟨isPermitted_of_isDigit hdigit, isVisible_of_isDigit hdigit⟩
  · have hsigns : ∀ c ∈ ['.', '+', '-', '*', '/', '%', '(', ')', ',', 'e'], isPermitted c = true ∧
        IsVisible c ∨ c = 'e' := by
      simp [isPermitted, IsVisible]
    exact hsigns c hsign

theorem IsFragment.cases (h : IsFragment u) :
    (∃ c, u = [c] ∧ isInner c = false ∧ IsVisible c) ∨ u ∈ compositeKeys := by
  rcases h with (⟨c, rfl, hc⟩ | hkey) | ⟨c, hc, rfl⟩
  · refine .inl ⟨c, rfl, ?_⟩
    rcases isPermitted_or_eq_of_isUnitCharacter hc with ⟨hpermitted, hvisible⟩ | rfl
    · refine ⟨?_, hvisible⟩
      rw [isInner]
      cases halpha : c.isAlpha with
      | false => rfl
      | true =>
          rw [isPermitted_eq_false halpha] at hpermitted
          cases hpermitted
    · decide
  · exact .inr hkey
  · have hletters : ∀ c ∈ "Infinity".toList, isInner c = false ∧ IsVisible c := by
      simp [isInner, IsVisible]
    exact .inl ⟨c, rfl, hletters c hc⟩

theorem IsFragment.isVisible (h : IsFragment u) : ∀ c ∈ u, IsVisible c := by
  rcases h.cases with ⟨c, rfl, -, hvisible⟩ | hkey
  · exact List.forall_mem_singleton.2 hvisible
  · have hkeys : ∀ key ∈ compositeKeys, ∀ c ∈ key, IsVisible c := by simp [compositeKeys, IsVisible]
    exact hkeys u hkey

theorem IsFragment.ne_nil (h : IsFragment u) : u ≠ [] := by
  rcases h.cases with ⟨c, rfl, -⟩ | hkey
  · simp
  · rintro rfl
    revert hkey
    decide

theorem exists_of_mem_compositeKeys :
    ∀ key ∈ compositeKeys, ∃ before c between last, key = before ++ c :: between ++ [last] ∧
      isInner c = true ∧ isInner last = false ∧ (last = '(' ∨ last = 'I') ∧
        ∀ d ∈ between, ¬ (d = '(' ∨ d = 'I') := by
  -- A composite key has an inner letter, and the first parenthesis or `I` behind it is the end of
  -- the key.
  simp only [compositeKeys, List.map_cons, List.map_nil, List.forall_mem_cons]
  exact ⟨⟨['s', 'q'], 'r', ['t'], '(', by simp [isInner]⟩,
    ⟨[], 's', ['i', 'n'], '(', by simp [isInner]⟩, ⟨['c', 'o'], 's', [], '(', by simp [isInner]⟩,
    ⟨['t'], 'a', ['n'], '(', by simp [isInner]⟩, ⟨['p', 'o'], 'w', [], '(', by simp [isInner]⟩,
    ⟨['l', 'o'], 'g', [], '(', by simp [isInner]⟩, ⟨[], 'P', [], 'I', by simp [isInner]⟩, by simp⟩

theorem flatten_ne_of_isInner {front between : List Char} {c : Char} (hus : ∀ v ∈ us, IsFragment v)
    (hc : isInner c = true) (hbetween : ∀ d ∈ between, ¬ (d = '(' ∨ d = 'I')) :
    us.flatten ≠ front ++ c :: between := by
  -- The induction takes away the last fragment, and with it the last of the letters between if it
  -- is a single character.
  induction us using List.reverseRecOn generalizing between with
  | nil => simp
  | append_singleton us u ih =>
      rw [List.forall_mem_append, List.forall_mem_singleton] at hus
      rw [List.flatten_append, List.flatten_singleton]
      intro h
      rcases hus.2.cases with ⟨x, rfl, hx, -⟩ | hkey
      · rcases List.eq_nil_or_concat between with rfl | ⟨between, d, rfl⟩
        · obtain ⟨-, hlast⟩ := List.append_inj' h rfl
          obtain rfl : x = c := by simpa using hlast
          rw [hc] at hx
          cases hx
        · rw [List.concat_eq_append, List.forall_mem_append] at hbetween
          rw [List.concat_eq_append, ← List.cons_append, ← List.append_assoc] at h
          exact ih hus.1 hbetween.1 (List.append_inj' h rfl).1
      · obtain ⟨before, _, middle, last, rfl, -, hinner, hend, -⟩ :=
          exists_of_mem_compositeKeys u hkey
        have hlast : (c :: between).getLast? = some last := by
          rw [← List.getLast?_append_of_ne_nil front (List.cons_ne_nil c between), ← h,
            ← List.append_assoc, List.getLast?_concat]
        rcases List.mem_cons.1 (List.mem_of_getLast? hlast) with rfl | hmem
        · rw [hc] at hinner
          cases hinner
        · exact hbetween last hmem hend

theorem eq_of_suffix_of_mem_compositeKeys :
    ∀ key ∈ compositeKeys, ∀ other ∈ compositeKeys, key <:+ other → key = other := by
  decide +kernel

theorem eq_of_suffix {key : List Char} (hus : ∀ v ∈ us, IsFragment v) (hu : IsFragment u)
    (hkey : key ∈ compositeKeys) (h : key <:+ us.flatten ++ u) : key = u := by
  rcases hu.cases with ⟨x, rfl, -⟩ | hu
  · -- The key would end with this character, and an inner letter of it would stand in the
    -- fragments before.
    obtain ⟨before, c, between, last, rfl, hinner, -, -, hbetween⟩ :=
      exists_of_mem_compositeKeys key hkey
    obtain ⟨front, hfront⟩ := h
    rw [← List.append_assoc, ← List.append_assoc] at hfront
    obtain ⟨hflatten, -⟩ := List.append_inj' hfront rfl
    exact absurd hflatten.symm (flatten_ne_of_isInner hus hinner hbetween)
  · rcases List.suffix_or_suffix_of_suffix h (List.suffix_append _ u) with hsuffix | hsuffix
    · exact eq_of_suffix_of_mem_compositeKeys key hkey u hu hsuffix
    · exact (eq_of_suffix_of_mem_compositeKeys u hu key hkey hsuffix).symm

theorem dropLastKey_append_fragment (hus : ∀ v ∈ us, IsFragment v) (hu : IsFragment u) :
    dropLastKey (us.flatten ++ u) = us.flatten := by
  have hlast : ∀ c ∈ (us.flatten ++ u).getLast?, (c = ' ' : Bool) = false := by
    intro c hc
    rw [List.getLast?_append_of_ne_nil _ hu.ne_nil] at hc
    rw [decide_eq_false_iff_not]
    rintro rfl
    exact absurd (hu.isVisible ' ' (List.mem_of_mem_getLast? hc)) (by decide)
  have hkept : Text.dropEndWhile (· = ' ') (us.flatten ++ u) = us.flatten ++ u := by
    have hrun : Text.dropEndWhile (· = ' ') (us.flatten ++ u ++ []) = _ :=
      Text.dropEndWhile_append_run hlast (by simp)
    rwa [List.append_nil] at hrun
  rw [dropLastKey, hkept]
  cases hfind : compositeKeys.find? fun key => key.isSuffixOf (us.flatten ++ u) with
  | some key =>
      obtain ⟨hsuffix, -⟩ := List.find?_eq_some_iff_append.1 hfind
      obtain rfl :=
        eq_of_suffix hus hu (List.mem_of_find?_eq_some hfind) (List.isSuffixOf_iff_suffix.1 hsuffix)
      simp
  | none =>
      rcases hu.cases with ⟨c, rfl, -⟩ | hu
      · simp
      · have hnone := List.find?_eq_none.1 hfind u hu
        simp at hnone

/-- Erasing takes away exactly the last unit. -/
theorem dropLastKey_append (hus : ∀ v ∈ us, IsUnit v) (hu : IsUnit u) :
    dropLastKey (us.flatten ++ u) = us.flatten :=
  dropLastKey_append_fragment (fun v hv => .inl (hus v hv)) (.inl hu)

end Fragments

namespace IsComposed

variable {P Q : List Char → Prop} {cs ds : List Char}

theorem nil : IsComposed P [] :=
  ⟨[], by simp, rfl⟩

theorem of_part (h : P cs) : IsComposed P cs :=
  ⟨[cs], by simpa using h, by simp⟩

theorem append (hcs : IsComposed P cs) (hds : IsComposed P ds) : IsComposed P (cs ++ ds) := by
  obtain ⟨us, hus, rfl⟩ := hcs
  obtain ⟨vs, hvs, rfl⟩ := hds
  exact ⟨us ++ vs, List.forall_mem_append.2 ⟨hus, hvs⟩, List.flatten_append⟩

theorem of_characters (h : ∀ c ∈ cs, P [c]) : IsComposed P cs := by
  induction cs with
  | nil => exact nil
  | cons c cs ih =>
      obtain ⟨hc, hcs⟩ := List.forall_mem_cons.1 h
      exact (of_part hc).append (ih hcs)

theorem mono (hPQ : ∀ {u}, P u → Q u) (h : IsComposed P cs) : IsComposed Q cs := by
  obtain ⟨us, hus, hflatten⟩ := h
  exact ⟨us, fun u hu => hPQ (hus u hu), hflatten⟩

theorem dropLastKey (hP : IsAlphabet P) (h : IsComposed P cs) : IsComposed P (dropLastKey cs) := by
  obtain ⟨us, hus, rfl⟩ := h
  rcases List.eq_nil_or_concat us with rfl | ⟨us, u, rfl⟩
  · exact nil
  · rw [List.concat_eq_append, List.forall_mem_append, List.forall_mem_singleton] at hus
    rw [List.concat_eq_append, List.flatten_append, List.flatten_singleton,
      dropLastKey_append_fragment (fun v hv => hP.isFragment (hus.1 v hv)) (hP.isFragment hus.2)]
    exact ⟨us, hus.1, rfl⟩

theorem operand (hP : IsAlphabet P) {r : String} (h : IsComposed P r.toList) :
    IsComposed P (operand r).toList := by
  unfold Buffer.operand
  split
  · rw [String.toList_append, String.toList_append]
    exact ((of_part (hP.of_isUnit (by decide))).append h).append
      (of_part (hP.of_isUnit (by decide)))
  · exact h

theorem recalled (hP : IsAlphabet P) {b r : String} (hb : IsComposed P b.toList)
    (hr : IsComposed P r.toList) :
    IsComposed P (recalled b r).toList := by
  unfold Buffer.recalled
  split
  · exact hr
  · rw [String.toList_append]
    exact hb.append (hr.operand hP)

end IsComposed

theorem isKeyed_iff {cs : List Char} : IsKeyed cs ↔ IsComposed IsUnit cs :=
  Iff.rfl

theorem IsKeyed.nil : IsKeyed [] :=
  IsComposed.nil

theorem IsKeyed.isVisible {cs : List Char} (h : IsKeyed cs) : ∀ c ∈ cs, IsVisible c := by
  obtain ⟨us, hus, rfl⟩ := h
  intro c hc
  obtain ⟨u, hu, hcu⟩ := List.mem_flatten.1 hc
  exact IsFragment.isVisible (.inl (hus u hu)) c hcu

theorem isSequence_unit {u : List Char} (h : IsUnit u) (cs : List Char) :
    isSequence (u ++ cs) = isSequence cs := by
  rcases h with ⟨c, rfl, hc⟩ | hkey
  · rcases isPermitted_or_eq_of_isUnitCharacter hc with ⟨hpermitted, -⟩ | rfl
    · exact isSequence_cons hpermitted cs
    · exact isSequence_name (by decide) cs
  · have hkeys : ∀ key ∈ compositeKeys, key ∈ names ∨ ∃ name ∈ names, key = name ++ ['('] := by
      decide +kernel
    rcases hkeys u hkey with hname | ⟨name, hname, rfl⟩
    · exact isSequence_name hname cs
    · rw [List.append_assoc, isSequence_name hname, List.singleton_append,
        isSequence_cons (by decide)]

theorem IsKeyed.isPermittedText {cs : List Char} (h : IsKeyed cs) : IsPermittedText cs := by
  obtain ⟨us, hus, rfl⟩ := h
  rw [← isSequence_iff]
  induction us with
  | nil => exact isSequence_nil
  | cons u us ih =>
      obtain ⟨hu, hrest⟩ := List.forall_mem_cons.1 hus
      rw [List.flatten_cons, isSequence_unit hu]
      exact ih hrest

theorem IsKeyed.replaceGlyphs_trim {cs : List Char} (h : IsKeyed cs) :
    replaceGlyphs (Text.trim cs) = cs := by
  rw [Text.trim_of_isVisible h.isVisible,
    replaceGlyphs_of_isVisible fun c hc => .inl (h.isVisible c hc)]

theorem isUnit_of_isMantissa {c : Char} (h : isMantissa c = true) : IsUnit [c] := by
  simp only [isMantissa, Bool.or_eq_true, decide_eq_true_eq] at h
  rcases h with hdigit | rfl
  · exact .inl ⟨c, rfl, by simp [isUnitCharacter, hdigit]⟩
  · decide

theorem isKeyed_text {x : Float} (h : IsFinite x) : IsKeyed (text x).toList := by
  obtain ⟨negative, n, hn⟩ := exists_numeral_of_isFinite h
  have hsign : IsComposed IsUnit (if negative then ['-'] else []) := by
    cases negative with
    | false => exact .nil
    | true => exact .of_part (by decide)
  rw [hn]
  refine hsign.append (.of_characters fun c hc => ?_)
  rcases Numeral.mem_text hc with hmantissa | rfl | rfl | rfl
  · exact isUnit_of_isMantissa hmantissa
  · decide
  · decide
  · decide

end Buffer

end TalkingCalculator
