import TalkingCalculator.Proofs.PostfixStacks

namespace TalkingCalculator

open Grammar

namespace Conversion

/-- Whether an operand is awaited. -/
def Ready (c : Conversion) : Prop :=
  c.afterValue = false ∧ c.awaitsParenthesis = false

/-- `After level t c c'` says that a phrase of a level with the tree `t` leads from `c` to `c'`.
What has come to wait on the stack since then are operators that bind at least as tightly as the
level, and with them the phrase is in postfix order. -/
def After (level : Tier) (t : Tree) (c c' : Conversion) : Prop :=
  ∃ waiting output, (∀ x ∈ waiting, level.rank ≤ x.precedence) ∧
    waiting.reverse ++ output = t.postfixOrder.reverse ++ c.output ∧
    c' = { c with output := output, operators := waiting ++ c.operators, afterValue := true }

theorem After.mono {level loose : Tier} {t : Tree} {c c' : Conversion} (h : After level t c c')
    (hrank : loose.rank ≤ level.rank) : After loose t c c' := by
  obtain ⟨waiting, output, hwaiting, houtput, hc'⟩ := h
  exact ⟨waiting, output, fun x hx => Nat.le_trans hrank (hwaiting x hx), houtput, hc'⟩

theorem After.binary {level tight : Tier} {a b : Tree} {c c' : Conversion} {op : BinaryOperator}
    (h : After tight b { c with
      output := a.postfixOrder.reverse ++ c.output, operators := .operator op :: c.operators } c')
    (hop : op.precedence = level.rank) (hrank : level.rank ≤ tight.rank) :
    After level (.binary op a b) c c' := by
  obtain ⟨waiting, output, hwaiting, houtput, rfl⟩ := h
  refine ⟨waiting ++ [.operator op], output, ?_, ?_, by simp⟩
  · intro x hx
    rcases List.mem_append.1 hx with hx | hx
    · exact Nat.le_trans hrank (hwaiting x hx)
    · obtain rfl := List.mem_singleton.1 hx
      exact Nat.le_of_eq hop.symm
  · simp [Tree.postfixOrder, houtput]

theorem step_operator_of_after {level : Tier} {a : Tree} {c c' : Conversion} {op : BinaryOperator}
    (h : After level a c c') (hc : c.Ready) (hadmits : level.Admits c.operators)
    (hlevel : level.rank < 3) (hop : op.precedence = level.rank) :
    c'.step (.operator op) = .ok { c with
      output := a.postfixOrder.reverse ++ c.output
      operators := .operator op :: c.operators } := by
  obtain ⟨waiting, output, hwaiting, houtput, rfl⟩ := h
  have hpos : 1 ≤ level.rank := by cases level <;> decide
  simp only [step, hc.2, operate, if_true, hop]
  rw [unstackOperators_append hpos hwaiting, unstackOperators_of_lt (hadmits hlevel), houtput]
  simp [hc.1]

theorem unstackToOpening_of_after {t : Tree} {c c' : Conversion} {ops : List Token}
    (h : After .sum t c c') (hops : c.operators = .opening :: ops) :
    unstackToOpening c'.output c'.operators =
      .ok (t.postfixOrder.reverse ++ c.output, .opening :: ops) := by
  obtain ⟨waiting, output, hwaiting, houtput, rfl⟩ := h
  rw [hops, unstackToOpening_append hwaiting, houtput]
  rfl

theorem step_closing_of_after {t : Tree} {c c' : Conversion} {ops : List Token}
    {call : Option Nat} {parentheses : List (Option Nat)}
    (h : After .sum t c c') (hc : c.Ready) (hops : c.operators = .opening :: ops)
    (hparentheses : c.parentheses = call :: parentheses) :
    c'.step .closing = closeCall { c with
      output := t.postfixOrder.reverse ++ c.output
      operators := ops
      parentheses := parentheses
      afterValue := true } call := by
  have hunstack := unstackToOpening_of_after h hops
  obtain ⟨waiting, output, hwaiting, houtput, rfl⟩ := h
  simp only [step, hc.2, close, hunstack, hparentheses]
  rfl

theorem step_comma_of_after {t : Tree} {c c' : Conversion} {ops : List Token}
    {count : Nat} {parentheses : List (Option Nat)}
    (h : After .sum t c c') (hc : c.Ready) (hops : c.operators = .opening :: ops)
    (hparentheses : c.parentheses = some count :: parentheses) :
    c'.step .comma = .ok { c with
      output := t.postfixOrder.reverse ++ c.output
      parentheses := some (count + 1) :: parentheses } := by
  have hunstack := unstackToOpening_of_after h hops
  obtain ⟨waiting, output, hwaiting, houtput, rfl⟩ := h
  simp only [step, hc.2, separate, hunstack, hparentheses]
  simp [hc.1, hops, bind, Except.bind]

theorem after_atom {t : Tree} {c c' : Conversion}
    (h : c' = { c with output := t.postfixOrder.reverse ++ c.output, afterValue := true }) :
    After .atom t c c' :=
  ⟨[], _, by simp, rfl, h⟩

theorem closeCall_name {c : Conversion} {w : String} {count : Nat} {ops : List Token}
    (h : arity? w = some count) (hops : c.operators = .name w :: ops) :
    c.closeCall (some count) =
      .ok { c with output := .call w count :: c.output, operators := ops } := by
  simp [closeCall, hops, h]

theorem step_opening {c : Conversion} (hc : c.Ready) :
    c.step .opening = .ok { c with
      operators := .opening :: c.operators
      parentheses := none :: c.parentheses } := by
  simp [step, hc.1, hc.2]

theorem foldlM_step_name_opening {c : Conversion} (hc : c.Ready) (w : String) (ts : List Token) :
    (Token.name w :: .opening :: ts).foldlM step c = ts.foldlM step { c with
      operators := .opening :: .name w :: c.operators
      parentheses := some 1 :: c.parentheses } := by
  have hname : c.step (.name w) =
      .ok { c with operators := .name w :: c.operators, awaitsParenthesis := true } := by
    simp [step, hc.1, hc.2]
  have hopening :
      step { c with operators := .name w :: c.operators, awaitsParenthesis := true } .opening =
      .ok { c with
        operators := .opening :: .name w :: c.operators
        parentheses := some 1 :: c.parentheses } := by
    simp [step, hc.1, hc.2]
  rw [foldlM_step_cons hname, foldlM_step_cons hopening]

theorem admits_opening (level : Tier) (ops : List Token) : level.Admits (.opening :: ops) := by
  intro _ x hx
  obtain rfl : Token.opening = x := by simpa using hx
  cases level <;> decide

theorem admits_operator {op : BinaryOperator} {level : Tier} (h : op.precedence < level.rank)
    (ops : List Token) : level.Admits (.operator op :: ops) := by
  intro _ x hx
  obtain rfl : Token.operator op = x := by simpa using hx
  exact h

/-- `Reads level ts t` says that the tokens are read as a phrase with the tree `t` wherever a phrase
of the level may stand. -/
def Reads (level : Tier) (ts : List Token) (t : Tree) : Prop :=
  ∀ c : Conversion, c.Ready → level.Admits c.operators →
    ∃ c', ts.foldlM step c = .ok c' ∧ After level t c c'

/-- `Supplies ts t` says that the tokens are read as a complete operand with the tree `t` wherever
one is awaited. -/
def Supplies (ts : List Token) (t : Tree) : Prop :=
  ∀ c : Conversion, c.Ready → ts.foldlM step c = .ok { c with
    output := t.postfixOrder.reverse ++ c.output
    afterValue := true }

section

variable {ts us : List Token} {a b : Tree}

theorem Supplies.reads (h : Supplies ts a) : Reads .atom ts a :=
  fun c hc _ => ⟨_, h c hc, after_atom rfl⟩

theorem supplies_operand (h : Token.IsOperand ts a) : Supplies ts a := by
  intro c hc
  cases h <;> simp [step, push, hc.1, hc.2, Tree.postfixOrder]

namespace Reads

theorem supplies_parentheses (h : Reads .sum ts a) :
    Supplies (.opening :: (ts ++ [.closing])) a := by
  intro c hc
  obtain ⟨c', hrun, hafter⟩ := h { c with
    operators := .opening :: c.operators, parentheses :=
    none :: c.parentheses } hc (admits_opening _ _)
  rw [foldlM_step_cons (step_opening hc), foldlM_step_append hrun,
    foldlM_step_cons (step_closing_of_after hafter hc rfl rfl)]
  rfl

theorem supplies_call (f : UnaryFunction) (h : Reads .sum ts a) :
    Supplies (.name f.name :: .opening :: (ts ++ [.closing])) (.apply f a) := by
  intro c hc
  obtain ⟨c', hrun, hafter⟩ := h { c with
    operators := .opening :: .name f.name :: c.operators, parentheses := some 1 :: c.parentheses }
    hc (admits_opening _ _)
  have harity : arity? f.name = some 1 := arity?_eq_some_iff.2 (.inr ⟨f, rfl, rfl⟩)
  have hclose := (step_closing_of_after hafter hc rfl rfl).trans (closeCall_name harity rfl)
  rw [foldlM_step_name_opening hc, foldlM_step_append hrun, foldlM_step_cons hclose]
  simp [Tree.postfixOrder, pure, Except.pure]

theorem supplies_power (ha : Reads .sum ts a) (hb : Reads .sum us b) :
    Supplies (.name powerName :: .opening :: (ts ++ .comma :: (us ++ [.closing])))
      (.power a b) := by
  intro c hc
  obtain ⟨c₁, hrun₁, hafter₁⟩ := ha { c with
    operators := .opening :: .name powerName :: c.operators
    parentheses := some 1 :: c.parentheses } hc (admits_opening _ _)
  obtain ⟨c₂, hrun₂, hafter₂⟩ := hb { c with
    output := a.postfixOrder.reverse ++ c.output
    operators := .opening :: .name powerName :: c.operators
    parentheses := some 2 :: c.parentheses } hc (admits_opening _ _)
  have harity : arity? powerName = some 2 := arity?_eq_some_iff.2 (.inl ⟨rfl, rfl⟩)
  have hclose := (step_closing_of_after hafter₂ hc rfl rfl).trans (closeCall_name harity rfl)
  rw [foldlM_step_name_opening hc, foldlM_step_append hrun₁,
    foldlM_step_cons (step_comma_of_after hafter₁ hc rfl rfl), foldlM_step_append hrun₂,
    foldlM_step_cons hclose]
  simp [Tree.postfixOrder, pure, Except.pure]

theorem minus (h : Reads .factor ts a) : Reads .factor (.operator .sub :: ts) (.negate a) := by
  intro c hc _
  obtain ⟨c', hrun, waiting, output, hwaiting, houtput, rfl⟩ :=
    h { c with operators := .negation :: c.operators } hc (by intro h; simp [Tier.rank] at h)
  have hminus : c.step (.operator .sub) = .ok { c with operators := .negation :: c.operators } := by
    simp [step, operate, hc.1, hc.2]
  refine ⟨_, by rw [foldlM_step_cons hminus, hrun], waiting ++ [.negation], output, ?_, ?_, ?_⟩
  · intro x hx
    rcases List.mem_append.1 hx with hx | hx
    · exact hwaiting x hx
    · obtain rfl := List.mem_singleton.1 hx
      decide
  · simp [Tree.postfixOrder, houtput]
  · simp

theorem plus (h : Reads .factor ts a) : Reads .factor (.operator .add :: ts) a := by
  intro c hc hadmits
  obtain ⟨c', hrun, hafter⟩ := h c hc hadmits
  have hplus : c.step (.operator .add) = .ok c := by
    simp [step, operate, hc.1, hc.2]
  exact ⟨c', by rw [foldlM_step_cons hplus, hrun], hafter⟩

theorem binary {level tight : Tier} {op : BinaryOperator} (hlevel : level.rank < 3)
    (htight : level.rank < tight.rank) (hop : op.precedence = level.rank) (ha : Reads level ts a)
    (hb : Reads tight us b) :
    Reads level (ts ++ .operator op :: us) (.binary op a b) := by
  intro c hc hadmits
  obtain ⟨c₁, hrun₁, hafter₁⟩ := ha c hc hadmits
  have hstep := step_operator_of_after hafter₁ hc hadmits hlevel hop
  obtain ⟨c₂, hrun₂, hafter₂⟩ := hb { c with
    output := a.postfixOrder.reverse ++ c.output, operators := .operator op :: c.operators } hc
    (admits_operator (by rw [hop]; exact htight) _)
  refine ⟨c₂, ?_, hafter₂.binary hop (Nat.le_of_lt htight)⟩
  rw [foldlM_step_append hrun₁, foldlM_step_cons hstep, hrun₂]

end Reads

end

theorem reads_of_derives {level : Tier} {ts : List Token} {t : Tree}
    (h : Derives id Token.IsOperand level ts t) : Reads level ts t := by
  induction h with
  | operand h => exact (supplies_operand h).reads
  | parentheses h ih => exact ih.supplies_parentheses.reads
  | call f h ih => exact (ih.supplies_call f).reads
  | power ha hb iha ihb => exact (iha.supplies_power ihb).reads
  | ofAtom h ih => exact ih
  | minus h ih => exact ih.minus
  | plus h ih => exact ih.plus
  | ofFactor h ih =>
      intro c hc _
      obtain ⟨c', hrun, hafter⟩ := ih c hc (by intro h; simp [Tier.rank] at h)
      exact ⟨c', hrun, hafter.mono (by decide)⟩
  | @product us vs a b op hop ha hb iha ihb =>
      have hprecedence : op.precedence = Tier.product.rank := by
        revert hop
        cases op <;> decide
      exact .binary (by decide) (by decide) hprecedence iha ihb
  | ofProduct h ih =>
      intro c hc hadmits
      obtain ⟨c', hrun, hafter⟩ :=
        ih c hc fun _ x hx => Nat.lt_succ_of_lt (hadmits (by decide) x hx)
      exact ⟨c', hrun, hafter.mono (by decide)⟩
  | @sum us vs a b op hop ha hb iha ihb =>
      have hprecedence : op.precedence = Tier.sum.rank := by
        revert hop
        cases op <;> decide
      exact .binary (by decide) (by decide) hprecedence iha ihb

theorem finish_of_unstackAll (c : Conversion) {output : List Token} (hvalue : c.afterValue = true)
    (hname : c.awaitsParenthesis = false) (h : unstackAll c.output c.operators = .ok output) :
    c.finish = .ok output.reverse := by
  simp only [finish, hvalue, hname, h]
  rfl

theorem toPostfix_of_isExpression {ts : List Token} {t : Tree} (h : IsExpression ts t) :
    toPostfix ts = .ok t.postfixOrder := by
  obtain ⟨c, hrun, waiting, output, hwaiting, houtput, rfl⟩ :=
    reads_of_derives h .start ⟨rfl, rfl⟩ (by simp [Tier.Admits, start])
  have hall : unstackAll output (waiting ++ []) = .ok t.postfixOrder.reverse := by
    rw [unstackAll_append hwaiting, houtput]
    simp [unstackAll, start]
  rw [List.append_nil] at hall
  have hfinish : Conversion.finish ⟨output, waiting, [], true, false⟩ = .ok t.postfixOrder := by
    simpa using finish_of_unstackAll ⟨output, waiting, [], true, false⟩ rfl rfl hall
  rw [toPostfix, hrun]
  simp only [start, List.append_nil]
  exact hfinish

end Conversion

end TalkingCalculator
