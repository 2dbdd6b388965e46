import TalkingCalculator.Proofs.NumberText
import TalkingCalculator.Proofs.PostfixOrder
import TalkingCalculator.Proofs.TreeRebuilding
import TalkingCalculator.Proofs.WritingTokens

namespace TalkingCalculator

open Grammar Lexer Number

def Number.IsLiteral (x : Float) : Prop :=
  IsFinite x ∧ isNegative x = false

instance (x : Float) : Decidable (IsLiteral x) :=
  inferInstanceAs (Decidable (_ ∧ _))

theorem Number.exists_numeral_of_isLiteral {x : Float} (h : IsLiteral x) :
    ∃ n : Numeral, n.text = (text x).toList ∧ n.value = x := by
  have hx : ofMagnitude false (magnitude x) = x := by
    rw [← h.2, ofMagnitude_magnitude]
  have hzero : magnitude x = 0 → false = false := fun _ => rfl
  obtain ⟨n, htext, hvalue⟩ := exists_numeral_of_text h.1 hzero
  rw [hx] at htext hvalue
  exact ⟨n, by simpa using htext.symm, hvalue⟩

/-- Whether a token can be typed, which those of postfix order cannot. -/
def Token.IsTyped : Token → Prop
  | number x => IsLiteral x
  | name w => (arity? w).isSome = true
  | negation | call _ _ => False
  | _ => True

theorem Lexeme.spells_text {t : Token} (h : t.IsTyped) : (Lexeme.token t).Spells t.text.toList := by
  cases t with
  | number x =>
      obtain ⟨n, htext, hvalue⟩ := exists_numeral_of_isLiteral h
      have hspells := Spells.numeral n
      rwa [htext, hvalue] at hspells
  | pi => exact .pi
  | euler => exact .euler
  | name w => exact .name w h
  | operator op =>
      rw [Token.text, String.toList_singleton]
      exact .operator op
  | opening => exact .opening
  | closing => exact .closing
  | comma => exact .comma
  | negation | call w count => exact h.elim

theorem Lexer.not_wordy_of_symbolToken? {c : Char} {t : Token} (h : symbolToken? c = some t)
    (cs : List Char) :
    ∀ d ∈ (c :: cs).head?, isWordy d = false := by
  intro d hd
  obtain rfl : c = d := by simpa using hd
  exact (isVisible_of_symbolToken? h).2

theorem Lexer.tokens_text_append {t : Token} (h : t.IsTyped) {cs : List Char}
    (hcs : ∀ c ∈ cs.head?, isWordy c = false) :
    tokens (t.text.toList ++ cs) = (t :: ·) <$> tokens cs := by
  refine tokens_spells (Lexeme.spells_text h) fun c _ d hd => ?_
  exact ⟨fun _ => (isWordy_eq_false_iff.1 (hcs d hd)).2, fun _ => hcs d hd⟩

theorem Lexer.tokens_name_opening {w : String} (hw : (arity? w).isSome = true) (cs : List Char) :
    tokens (w.toList ++ '(' :: cs) = ([.name w, .opening] ++ ·) <$> tokens cs := by
  have hname :=
    tokens_text_append (t := .name w) hw
      (not_wordy_of_symbolToken? (c := '(') (t := .opening) rfl cs)
  change tokens (w.toList ++ '(' :: cs) = _ at hname
  rw [hname, tokens_symbol (c := '(') rfl, Functor.map_map]
  rfl

namespace Tree

def numbers : Tree → List Float
  | number x => [x]
  | pi | euler => []
  | negate a | apply _ a => a.numbers
  | power a b | binary _ a b => a.numbers ++ b.numbers

/-- The tokens of the text of a tree. -/
def tokens : Tree → List Token
  | number x => [.number x]
  | pi => [.pi]
  | euler => [.euler]
  | negate a => .operator .sub :: a.tokens
  | apply f a => .name f.name :: .opening :: (a.tokens ++ [.closing])
  | power a b => .name powerName :: .opening :: (a.tokens ++ .comma :: (b.tokens ++ [.closing]))
  | binary op a b => .opening :: (a.tokens ++ .operator op :: b.tokens ++ [.closing])

/-- A negation is a factor and every other tree an atom, so its text can stand wherever a factor
can. -/
theorem derives_tokens (t : Tree) : Derives id Token.IsOperand .factor t.tokens t := by
  induction t with
  | number x => exact .ofAtom (.operand (.number x))
  | pi => exact .ofAtom (.operand .pi)
  | euler => exact .ofAtom (.operand .euler)
  | negate a ih => exact .minus ih
  | apply f a ih => exact .ofAtom (.call f (.ofProduct (.ofFactor ih)))
  | power a b iha ihb =>
      exact .ofAtom (.power (.ofProduct (.ofFactor iha)) (.ofProduct (.ofFactor ihb)))
  | binary op a b iha ihb =>
      have hsum : Derives id Token.IsOperand .sum (a.tokens ++ .operator op :: b.tokens)
          (binary op a b) := by
        by_cases hop : op ∈ [.add, .sub]
        · exact .sum hop (.ofProduct (.ofFactor iha)) (.ofFactor ihb)
        · have hop' : op ∈ [.mul, .div, .rem] := by
            revert hop
            cases op <;> decide
          exact .ofProduct (.product hop' (.ofFactor iha) ihb)
      exact .ofAtom (.parentheses hsum)

theorem tokens_text {t : Tree} (h : ∀ x ∈ t.numbers, IsLiteral x) {cs : List Char}
    (hcs : ∀ c ∈ cs.head?, isWordy c = false) :
    Lexer.tokens (t.text.toList ++ cs) = (t.tokens ++ ·) <$> Lexer.tokens cs := by
  induction t generalizing cs with
  | number x => exact tokens_text_append (t := .number x) (h x (by simp [numbers])) hcs
  | pi => exact tokens_text_append (t := .pi) trivial hcs
  | euler => exact tokens_text_append (t := .euler) trivial hcs
  | negate a ih =>
      have htext : (negate a).text.toList ++ cs = '-' :: (a.text.toList ++ cs) := by simp [text]
      rw [htext, tokens_symbol rfl, ih h hcs, Functor.map_map]
      rfl
  | apply f a ih =>
      have htext : (apply f a).text.toList ++ cs =
          f.name.toList ++ '(' :: (a.text.toList ++ ')' :: cs) := by simp [text]
      have hf : (arity? f.name).isSome = true := by cases f <;> rfl
      rw [htext, tokens_name_opening hf, ih h (not_wordy_of_symbolToken? rfl cs), tokens_symbol rfl,
        Functor.map_map, Functor.map_map]
      simp [tokens]
  | power a b iha ihb =>
      have htext : (power a b).text.toList ++ cs =
          powerName.toList ++ '(' ::
            (a.text.toList ++ ',' :: ' ' :: (b.text.toList ++ ')' :: cs)) := by simp [text]
      have ha : ∀ x ∈ a.numbers, IsLiteral x := fun x hx => h x (List.mem_append_left _ hx)
      have hb : ∀ x ∈ b.numbers, IsLiteral x := fun x hx => h x (List.mem_append_right _ hx)
      rw [htext, tokens_name_opening rfl, iha ha (not_wordy_of_symbolToken? rfl _),
        tokens_symbol rfl, tokens_blank (by decide), ihb hb (not_wordy_of_symbolToken? rfl cs),
        tokens_symbol rfl]
      simp [tokens]
  | binary op a b iha ihb =>
      have htext : (binary op a b).text.toList ++ cs =
          '(' :: (a.text.toList ++ op.symbol :: (b.text.toList ++ ')' :: cs)) := by simp [text]
      have ha : ∀ x ∈ a.numbers, IsLiteral x := fun x hx => h x (List.mem_append_left _ hx)
      have hb : ∀ x ∈ b.numbers, IsLiteral x := fun x hx => h x (List.mem_append_right _ hx)
      have hop := symbolToken?_symbol op
      rw [htext, tokens_symbol rfl, iha ha (not_wordy_of_symbolToken? hop _), tokens_symbol hop,
        ihb hb (not_wordy_of_symbolToken? rfl cs), tokens_symbol rfl]
      simp [tokens]

end Tree

/-- The text of a tree is read back as the tree, unless it is too high. -/
theorem read_text {t : Tree} (h : ∀ x ∈ t.numbers, IsLiteral x) :
    (tokenize t.text >>= fun ts => toPostfix ts >>= Tree.ofPostfix) =
      if t.height ≤ maxHeight then .ok t else .error (.failure .nestedTooDeeply) := by
  have htokens : tokenize t.text = .ok t.tokens := by
    have hall : Lexer.tokens (t.text.toList ++ []) = (t.tokens ++ ·) <$> Lexer.tokens [] :=
      Tree.tokens_text h (by simp)
    rw [List.append_nil, Lexer.tokens] at hall
    rw [tokenize, hall]
    exact congrArg Except.ok (List.append_nil _)
  have hordered : toPostfix t.tokens = .ok t.postfixOrder :=
    Conversion.toPostfix_of_isExpression (.ofProduct (.ofFactor t.derives_tokens))
  rw [htokens, ← Tree.ofPostfix_postfixOrder]
  change toPostfix _ >>= _ = _
  rw [hordered]
  rfl

theorem read_text_signs :
    ∃ t : Tree,
      t = .binary .sub (.negate (.number 1e21))
        (.binary .rem .euler (.power (.number 0.5) (.negate (.negate .pi)))) ∧
      (∀ x ∈ t.numbers, IsLiteral x) ∧ t.text = "(-1e+21-(e%pow(0.5, --PI)))" ∧
      (tokenize "(-1e+21-(e%pow(0.5, --PI)))" >>= fun ts => toPostfix ts >>= Tree.ofPostfix) =
        .ok t := by
  refine ⟨_, rfl, ?_⟩
  generalize ht : Tree.binary .sub (.negate (.number 1e21))
    (.binary .rem .euler (.power (.number 0.5) (.negate (.negate .pi)))) = t
  have hnumbers : ∀ x ∈ t.numbers, IsLiteral x := by
    subst ht
    decide +kernel
  have htext : t.text = "(-1e+21-(e%pow(0.5, --PI)))" := by
    subst ht
    decide +kernel
  have hheight : t.height ≤ maxHeight := by
    subst ht
    decide
  have hread := read_text hnumbers
  rw [htext, if_pos hheight] at hread
  exact ⟨hnumbers, htext, hread⟩

end TalkingCalculator
