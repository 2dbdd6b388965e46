import TalkingCalculator.Proofs.WritingTokens

namespace TalkingCalculator

open Input Lexer

namespace Input

theorem isSequence_nil : isSequence [] = true := by
  rw [isSequence, if_pos rfl]

theorem isSequence_of_dropPiece? {cs rest : List Char} (h : dropPiece? cs = some rest) :
    isSequence cs = isSequence rest := by
  have hne : cs ≠ [] := by
    rintro rfl
    cases h
  rw [isSequence, if_neg hne]
  split
  · next rest' h' =>
      rw [h] at h'
      cases h'
      rfl
  · next h' =>
      rw [h] at h'
      cases h'

theorem isSequence_eq_false {cs : List Char} (hne : cs ≠ []) (h : dropPiece? cs = none) :
    isSequence cs = false := by
  rw [isSequence, if_neg hne]
  split
  · next h' =>
      rw [h] at h'
      cases h'
  · rfl

theorem dropPiece?_append {w : List Char} (hw : IsPiece w) (cs : List Char) :
    dropPiece? (w ++ cs) = some cs := by
  rcases hw with ⟨c, rfl, hc⟩ | hw
  · exact if_pos hc
  · simp only [names, List.map_cons, List.map_nil, List.mem_cons, List.not_mem_nil, or_false] at hw
    rcases hw with rfl | rfl | rfl | rfl | rfl | rfl | rfl | rfl <;> rfl

theorem isSequence_piece {w : List Char} (hw : IsPiece w) (cs : List Char) :
    isSequence (w ++ cs) = isSequence cs :=
  isSequence_of_dropPiece? (dropPiece?_append hw cs)

theorem isSequence_cons {c : Char} (hc : isPermitted c = true) (cs : List Char) :
    isSequence (c :: cs) = isSequence cs :=
  isSequence_piece (.inl ⟨c, rfl, hc⟩) cs

theorem isSequence_append {w : List Char} (hw : ∀ c ∈ w, isPermitted c = true) (cs : List Char) :
    isSequence (w ++ cs) = isSequence cs := by
  induction w with
  | nil => rfl
  | cons c w ih =>
      rw [List.cons_append, isSequence_cons (hw c (by simp)), ih fun d hd => hw d (by simp [hd])]

theorem isSequence_name {w : List Char} (hw : w ∈ names) (cs : List Char) :
    isSequence (w ++ cs) = isSequence cs :=
  isSequence_piece (.inr hw) cs

/-- Whether a text is a sequence of permitted characters and permitted names. -/
def IsPermittedText (cs : List Char) : Prop :=
  ∃ pieces : List (List Char), (∀ w ∈ pieces, IsPiece w) ∧ pieces.flatten = cs

/-- Names are taken greedily from the left, which loses no way to divide a text. -/
theorem isSequence_iff {cs : List Char} : isSequence cs = true ↔ IsPermittedText cs := by
  constructor
  · intro h
    induction cs using isSequence.induct with
    | case1 => exact ⟨[], by simp, rfl⟩
    | case2 cs hne rest hdrop ih =>
        obtain ⟨w, hw, rfl⟩ := exists_piece_of_dropPiece? hdrop
        rw [isSequence_of_dropPiece? hdrop] at h
        obtain ⟨pieces, hpieces, rfl⟩ := ih h
        exact ⟨w :: pieces, List.forall_mem_cons.2 ⟨hw, hpieces⟩, rfl⟩
    | case3 cs hne hdrop =>
        rw [isSequence_eq_false hne hdrop] at h
        cases h
  · rintro ⟨pieces, hpieces, rfl⟩
    induction pieces with
    | nil => exact isSequence_nil
    | cons w pieces ih =>
        obtain ⟨hw, hrest⟩ := List.forall_mem_cons.1 hpieces
        rw [List.flatten_cons, isSequence_piece hw]
        exact ih hrest

theorem isPermitted_of_isDigit {c : Char} (h : c.isDigit = true) : isPermitted c = true := by
  simp [isPermitted, h]

theorem isPermitted_of_isMantissa {c : Char} (h : isMantissa c = true) : isPermitted c = true := by
  simp only [isMantissa, Bool.or_eq_true, decide_eq_true_eq] at h
  rcases h with h | rfl
  · exact isPermitted_of_isDigit h
  · decide

theorem isPermitted_of_isBlank {c : Char} (h : Text.isBlank c = true) : isPermitted c = true := by
  simp [isPermitted, h]

theorem isPermitted_of_symbolToken? {c : Char} {t : Token} (h : symbolToken? c = some t) :
    isPermitted c = true := by
  rcases symbolToken?_eq_some h with ⟨rfl, -⟩ | ⟨rfl, -⟩ | ⟨rfl, -⟩ | ⟨op, rfl, -⟩
  · decide
  · decide
  · decide
  · cases op <;> decide

end Input

theorem isSequence_numeral (n : Numeral) (cs : List Char) :
    isSequence (n.text ++ cs) = isSequence cs := by
  have hmantissa : ∀ c ∈ n.mantissa.text, isPermitted c = true :=
    fun c hc => isPermitted_of_isMantissa (n.mantissa.isMantissa_of_mem hc)
  rw [Numeral.text, List.append_assoc, isSequence_append hmantissa]
  cases n.exponent with
  | none => rfl
  | some e =>
      have hsign : ∀ c ∈ e.sign, isPermitted c = true := by
        rcases e.sign_eq with h | h | h <;> rw [h] <;> exact List.all_eq_true.1 (by decide)
      have htext : Option.elim (some e) [] Exponent.text ++ cs =
          ['e'] ++ (e.sign ++ (e.digits ++ cs)) := by
        simp [Exponent.text]
      rw [htext, isSequence_name (by decide), isSequence_append hsign,
        isSequence_append fun c hc => isPermitted_of_isDigit (e.isDigit c hc)]

theorem mem_names_of_arity? {w : String} (hw : (arity? w).isSome = true) : w.toList ∈ names := by
  obtain ⟨count, hcount⟩ := Option.isSome_iff_exists.1 hw
  rcases arity?_eq_some_iff.1 hcount with ⟨rfl, -⟩ | ⟨f, rfl, -⟩
  · decide
  · cases f <;> decide

theorem isPermitted_of_mem_asFraction {run : List Char} (hrun : ∀ c ∈ run, isMantissa c = true) :
    ∀ c ∈ asFraction run, isPermitted c = true := by
  intro c hc
  have hends : ['(', '/', '1', '0', '0', ')'].all isPermitted = true := by decide
  change c ∈ ('(' :: run) ++ ['/', '1', '0', '0', ')'] at hc
  rcases List.mem_append.1 hc with hc | hc
  · rcases List.mem_cons.1 hc with rfl | hc
    · decide
    · exact isPermitted_of_isMantissa (hrun c hc)
  · exact List.all_eq_true.1 hends c (List.mem_cons_of_mem _ hc)

theorem isSequence_spells {w : List Char} {t : Token} (hw : (Lexeme.token t).Spells w)
    (cs : List Char) :
    isSequence (w ++ cs) = isSequence cs := by
  cases hl : (Lexeme.token t).isWord with
  | false =>
      obtain ⟨c, u, rfl, -, hc⟩ := hw.exists_symbol hl
      exact isSequence_cons (isPermitted_of_symbolToken? hc) cs
  | true =>
      cases hw with
      | numeral n => exact isSequence_numeral n cs
      | pi | euler => exact isSequence_name (by decide) cs
      | name w hw => exact isSequence_name (mem_names_of_arity? hw) cs
      | _ => cases hl

theorem isSequence_of_spells {w cs : List Char} {l : Lexeme} (hw : l.Spells w)
    (hapart : Apart w cs) :
    isSequence (expandPercent (w ++ cs)) = isSequence (expandPercent cs) := by
  cases l with
  | token t => rw [expandPercent_spells hw hapart, isSequence_spells hw]
  | percentage x =>
      cases hw with
      | percentage m =>
          have hrun : ∀ c ∈ m.text, isMantissa c = true := fun c hc => m.isMantissa_of_mem hc
          rw [List.append_assoc, List.singleton_append, expandPercent_percentage m.text_ne_nil hrun,
            isSequence_append (isPermitted_of_mem_asFraction hrun)]

theorem isSequence_writes_append {cs ds : List Char} {ls : List Lexeme} (h : Writes cs ls)
    (hchain : ls.IsChain Lexeme.Separable) (hds : ∀ d ∈ ds.head?, isWordy d = false ∧ d ≠ '%') :
    isSequence (expandPercent (cs ++ ds)) = isSequence (expandPercent ds) := by
  induction h with
  | nil => rfl
  | blank hc h ih =>
      rw [List.cons_append, expandPercent_cons (isMantissa_of_isBlank hc),
        isSequence_cons (isPermitted_of_isBlank hc), ih hchain]
  | lexeme hw hpercent h ih =>
      rw [List.append_assoc, isSequence_of_spells hw (Writes.apart_append hw hpercent h hchain hds),
        ih (List.isChain_cons.1 hchain).2]

theorem isSequence_of_writes {cs : List Char} {ls : List Lexeme} (h : Writes cs ls)
    (hchain : ls.IsChain Lexeme.Separable) : isSequence (expandPercent cs) = true := by
  have hall : isSequence (expandPercent (cs ++ [])) = _ :=
    isSequence_writes_append h hchain (by simp)
  rw [List.append_nil] at hall
  rw [hall, expandPercent, expandPercentFrom, List.reverse_nil, isSequence_nil]

end TalkingCalculator
