import TalkingCalculator.Proofs.ConversionFaults
import TalkingCalculator.Proofs.Successes

namespace TalkingCalculator.Conversion

/-- The commas read at each open level after one more token, the innermost level first. -/
def countCommas : List Nat → Token → List Nat
  | counts, .opening => 0 :: counts
  | count :: counts, .comma => (count + 1) :: counts
  | _ :: counts, .closing => counts
  | counts, _ => counts

/-- The commas read at each open level, the innermost level first. -/
def commasRead (read : List Token) : List Nat :=
  read.foldl countCommas []

/-- Whether there is a name on top of a stack of operators. -/
def hasNameOnTop : List Token → Bool
  | .name _ :: _ => true
  | _ => false

/-- `Fits operators parentheses counts` says that the open parentheses on the stack of operators are
those of the other stack, that the names lie directly under the parentheses of calls, and that a
call has one argument more than commas were read in it. -/
inductive Fits : List Token → List (Option Nat) → List Nat → Prop
  | nil : Fits [] [] []
  | operator {t ops ps counts} (ht : t.isOperator = true) (h : Fits ops ps counts) : Fits
      (t :: ops) ps counts
  | group {ops ps counts} (h : Fits ops ps counts) : Fits (.opening :: ops) (none :: ps)
      (0 :: counts)
  | call {ops ps counts} (w : String) (count : Nat) (h : Fits ops ps counts) :
      Fits (.opening :: .name w :: ops) (some (count + 1) :: ps) (count :: counts)

/-- `Disciplined read c` says that the stacks fit each other after the tokens `read`. A name that
awaits its parenthesis is on top. -/
inductive Disciplined : List Token → Conversion → Prop
  | plain {read output ops ps afterValue} (h : Fits ops ps (commasRead read)) :
      Disciplined read ⟨output, ops, ps, afterValue, false⟩
  | named {read output ops ps afterValue} (w : String) (h : Fits ops ps (commasRead read)) :
      Disciplined read ⟨output, .name w :: ops, ps, afterValue, true⟩

theorem ne_opening_of_isOperator {t : Token} (h : t.isOperator = true) : t ≠ .opening := by
  rintro rfl
  exact absurd h (by decide)

section Commas

theorem commasRead_append_singleton (read : List Token) (t : Token) :
    commasRead (read ++ [t]) = countCommas (commasRead read) t :=
  List.foldl_append

theorem countCommas_of_ne {t : Token} (hopening : t ≠ .opening) (hclosing : t ≠ .closing)
    (hcomma : t ≠ .comma) (counts : List Nat) : countCommas counts t = counts := by
  cases counts <;> cases t <;> first | rfl | contradiction

theorem commasRead_append_of_ne {t : Token} (hopening : t ≠ .opening) (hclosing : t ≠ .closing)
    (hcomma : t ≠ .comma) (read : List Token) : commasRead (read ++ [t]) = commasRead read := by
  rw [commasRead_append_singleton, countCommas_of_ne hopening hclosing hcomma]

end Commas

namespace Fits

variable {ops : List Token} {ps : List (Option Nat)} {counts : List Nat}

theorem hasNameOnTop_eq_false (h : Fits ops ps counts) : hasNameOnTop ops = false := by
  cases h with
  | nil | group | call => rfl
  | @operator t ops ps counts ht h =>
      cases t <;> first | rfl | simp [Token.isOperator, Token.precedence] at ht

theorem length_eq (h : Fits ops ps counts) :
    ps.length = ops.count .opening ∧ counts.length = ps.length := by
  induction h with
  | nil => exact ⟨rfl, rfl⟩
  | @operator t ops ps counts ht h ih =>
      have hne := ne_opening_of_isOperator ht
      rwa [List.count_cons_of_ne hne]
  | group h ih => simp [ih]
  | call w count h ih => simp [ih]

theorem entry (h : Fits ops ps counts) {above below : List Token}
    (hops : ops = above ++ .opening :: below) :
    ∃ commas, counts[above.count .opening]? = some commas ∧
      ps[above.count .opening]? =
        some (if hasNameOnTop below then some (commas + 1) else none) := by
  -- The entry of an open parenthesis stands as deep in the other stack as there are open
  -- parentheses above it.
  induction h generalizing above with
  | nil => simp at hops
  | @operator t ops ps counts ht h ih =>
      have hne := ne_opening_of_isOperator ht
      cases above with
      | nil => exact absurd (List.cons_eq_cons.1 hops).1 hne
      | cons u above =>
          obtain ⟨rfl, hrest⟩ := List.cons_eq_cons.1 hops
          rw [List.count_cons_of_ne hne]
          exact ih hrest
  | @group ops ps counts h ih =>
      cases above with
      | nil =>
          obtain ⟨-, rfl⟩ := List.cons_eq_cons.1 hops
          exact ⟨0, rfl, by rw [h.hasNameOnTop_eq_false]; rfl⟩
      | cons u above =>
          obtain ⟨rfl, hrest⟩ := List.cons_eq_cons.1 hops
          rw [List.count_cons_self]
          exact ih hrest
  | @call ops ps counts w count h ih =>
      rcases above with _ | ⟨u, _ | ⟨v, above⟩⟩
      · obtain ⟨-, rfl⟩ := List.cons_eq_cons.1 hops
        exact ⟨count, rfl, rfl⟩
      · simp at hops
      · obtain ⟨rfl, hname⟩ := List.cons_eq_cons.1 hops
        obtain ⟨rfl, hrest⟩ := List.cons_eq_cons.1 hname
        rw [List.count_cons_self, List.count_cons_of_ne (by simp)]
        exact ih hrest

theorem unstackOperators (h : Fits ops ps counts) (precedence : Nat) (output : List Token) :
    Fits (Conversion.unstackOperators precedence output ops).2 ps counts := by
  induction h generalizing output with
  | nil => exact .nil
  | operator ht h ih =>
      rw [Conversion.unstackOperators]
      split
      · exact ih _
      · exact .operator ht h
  | group h => exact .group h
  | call w count h => exact .call w count h

theorem unstackToOpening (h : Fits ops ps counts) {output : List Token}
    {moved : List Token × List Token}
    (hmoved : Conversion.unstackToOpening output ops = .ok moved) :
    ∃ rest, moved.2 = .opening :: rest ∧ Fits (.opening :: rest) ps counts := by
  induction h generalizing output with
  | nil => cases hmoved
  | @operator t ops ps counts ht h ih =>
      rw [Conversion.unstackToOpening] at hmoved
      · exact ih hmoved
      · exact ne_opening_of_isOperator ht
  | group h =>
      obtain rfl := Except.ok.inj hmoved
      exact ⟨_, rfl, .group h⟩
  | call w count h =>
      obtain rfl := Except.ok.inj hmoved
      exact ⟨_, rfl, .call w count h⟩

end Fits

section Inversion

variable {c c' : Conversion} {t : Token}

theorem eq_of_push (h : c.push t = .ok c') :
    c' = { c with output := t :: c.output, afterValue := true } := by
  rw [push] at h
  split at h
  · cases h
  · exact (Except.ok.inj h).symm

theorem eq_of_operate {op : BinaryOperator} (h : c.operate op = .ok c') :
    c' = { c with
      output := (unstackOperators op.precedence c.output c.operators).1
      operators := .operator op :: (unstackOperators op.precedence c.output c.operators).2
      afterValue := false } ∨
    c' = { c with operators := .negation :: c.operators } ∨ c' = c := by
  unfold operate at h
  split at h
  · exact .inl (Except.ok.inj h).symm
  · split at h
    · exact .inr (.inl (Except.ok.inj h).symm)
    · exact .inr (.inr (Except.ok.inj h).symm)
    · cases h

theorem exists_of_separate (h : c.separate = .ok c') :
    ∃ moved count ps, unstackToOpening c.output c.operators = .ok moved ∧
      c.parentheses = some count :: ps ∧
      c' = { c with
        output := moved.1
        operators := moved.2
        parentheses := some (count + 1) :: ps
        afterValue := false } := by
  rw [separate] at h
  split at h
  · cases h
  · obtain ⟨moved, hmoved, hrest⟩ := exists_of_bind_eq_ok h
    dsimp only at hrest
    split at hrest
    · next count ps hps => exact ⟨moved, count, ps, hmoved, hps, (Except.ok.inj hrest).symm⟩
    · cases hrest

theorem exists_of_close (h : c.close = .ok c') :
    ∃ moved call ps, unstackToOpening c.output c.operators = .ok moved ∧
      c.parentheses = call :: ps ∧
      closeCall { c with output := moved.1, operators := moved.2.drop 1, parentheses := ps } call =
        .ok c' := by
  rw [close] at h
  split at h
  · cases h
  · obtain ⟨moved, hmoved, hrest⟩ := exists_of_bind_eq_ok h
    dsimp only at hrest
    split at hrest
    · cases hrest
    · next call ps hps => exact ⟨moved, call, ps, hmoved, hps, hrest⟩

theorem opening_mem_of_unstackToOpening {output ops : List Token} {moved : List Token × List Token}
    (h : unstackToOpening output ops = .ok moved) : .opening ∈ ops := by
  fun_induction unstackToOpening output ops with
  | case1 => cases h
  | case2 => exact List.mem_cons_self
  | case3 output op ops hop ih => exact List.mem_cons_of_mem op (ih h)

end Inversion

namespace Disciplined

variable {read : List Token} {c c' : Conversion} {t : Token}

theorem start : Disciplined [] .start :=
  .plain .nil

theorem awaitsParenthesis_eq (h : Disciplined read c) :
    c.awaitsParenthesis = hasNameOnTop c.operators := by
  cases h with
  | plain h => exact h.hasNameOnTop_eq_false.symm
  | named => rfl

theorem length_eq (h : Disciplined read c) :
    c.parentheses.length = c.operators.count .opening ∧
    (commasRead read).length = c.parentheses.length := by
  cases h with
  | plain h => exact h.length_eq
  | named w h =>
      rw [List.count_cons_of_ne (by simp)]
      exact h.length_eq

theorem entry (h : Disciplined read c) {above below : List Token}
    (hops : c.operators = above ++ .opening :: below) :
    ∃ commas, (commasRead read)[above.count .opening]? = some commas ∧
      c.parentheses[above.count .opening]? =
        some (if hasNameOnTop below then some (commas + 1) else none) := by
  cases h with
  | plain h => exact h.entry hops
  | named w h =>
      cases above with
      | nil => simp at hops
      | cons t above =>
          obtain ⟨rfl, hrest⟩ := List.cons_eq_cons.1 hops
          rw [List.count_cons_of_ne (by simp)]
          exact h.entry hrest

theorem parentheses_ne_nil (h : Disciplined read c) {moved : List Token × List Token}
    (hmoved : unstackToOpening c.output c.operators = .ok moved) : c.parentheses ≠ [] := by
  intro hnil
  have hcount := h.length_eq.1
  rw [hnil] at hcount
  exact List.count_eq_zero.1 hcount.symm (opening_mem_of_unstackToOpening hmoved)

theorem fits (h : Disciplined read c) (hplain : c.awaitsParenthesis = false) :
    Fits c.operators c.parentheses (commasRead read) := by
  cases h with
  | plain h => exact h
  | named => cases hplain

theorem of_fits (h : Fits c.operators c.parentheses (commasRead read))
    (hplain : c.awaitsParenthesis = false) :
    Disciplined read c := by
  obtain ⟨output, operators, parentheses, afterValue, awaitsParenthesis⟩ := c
  obtain rfl : awaitsParenthesis = false := hplain
  exact .plain h

theorem operate {op : BinaryOperator} (h : Disciplined read c)
    (hplain : c.awaitsParenthesis = false) (hstep : c.operate op = .ok c') :
    Disciplined (read ++ [.operator op]) c' := by
  have hcommas := commasRead_append_of_ne (t := .operator op) (by simp) (by simp) (by simp) read
  have hfits := h.fits hplain
  have hoperator : (Token.operator op).isOperator = true := by cases op <;> rfl
  rcases eq_of_operate hstep with rfl | rfl | rfl
  · refine of_fits ?_ hplain
    rw [hcommas]
    exact .operator hoperator (hfits.unstackOperators _ _)
  · refine of_fits ?_ hplain
    rw [hcommas]
    exact .operator rfl hfits
  · refine of_fits ?_ hplain
    rwa [hcommas]

theorem separate (h : Disciplined read c) (hplain : c.awaitsParenthesis = false)
    (hstep : c.separate = .ok c') :
    Disciplined (read ++ [.comma]) c' := by
  obtain ⟨moved, count, ps, hmoved, hps, rfl⟩ := exists_of_separate hstep
  obtain ⟨rest, hrest, hfits⟩ := (h.fits hplain).unstackToOpening hmoved
  refine of_fits ?_ hplain
  rw [commasRead_append_singleton]
  dsimp only
  rw [hrest]
  rw [hps] at hfits
  generalize commasRead read = counts at hfits ⊢
  cases hfits with
  | operator ht => exact absurd rfl (ne_opening_of_isOperator ht)
  | call w count h => exact .call w (count + 1) h

theorem close (h : Disciplined read c) (hplain : c.awaitsParenthesis = false)
    (hstep : c.close = .ok c') :
    Disciplined (read ++ [.closing]) c' := by
  obtain ⟨moved, call, ps, hmoved, hps, hcall⟩ := exists_of_close hstep
  obtain ⟨rest, hrest, hfits⟩ := (h.fits hplain).unstackToOpening hmoved
  rw [hrest, List.drop_one, List.tail_cons] at hcall
  rw [hps] at hfits
  have hcommas := commasRead_append_singleton read .closing
  generalize commasRead read = counts at hfits hcommas
  cases hfits with
  | operator ht => exact absurd rfl (ne_opening_of_isOperator ht)
  | group h =>
      obtain rfl := Except.ok.inj hcall
      refine of_fits ?_ hplain
      rwa [hcommas]
  | call w count h =>
      simp only [closeCall] at hcall
      split at hcall
      · obtain rfl := Except.ok.inj hcall
        refine of_fits ?_ hplain
        rwa [hcommas]
      · cases hcall

/-- A token that is read keeps the discipline. -/
theorem step (h : Disciplined read c) (hstep : c.step t = .ok c') :
    Disciplined (read ++ [t]) c' := by
  unfold Conversion.step at hstep
  split at hstep
  · cases hstep
  · next hname =>
      have hplain : t ≠ .opening → c.awaitsParenthesis = false :=
        fun ht => by simpa [ht] using hname
      have hpush : t ≠ .opening → t ≠ .closing → t ≠ .comma → c.push t = .ok c' →
          Disciplined (read ++ [t]) c' := by
        intro hopening hclosing hcomma hpushed
        obtain rfl := eq_of_push hpushed
        refine of_fits ?_ (hplain hopening)
        rw [commasRead_append_of_ne hopening hclosing hcomma]
        exact h.fits (hplain hopening)
      cases t with
      | number | pi | euler => exact hpush (by simp) (by simp) (by simp) hstep
      | comma => exact h.separate (hplain (by simp)) hstep
      | closing => exact h.close (hplain (by simp)) hstep
      | operator op => exact h.operate (hplain (by simp)) hstep
      | negation | call => cases hstep
      | name w =>
          dsimp only at hstep
          split at hstep
          · cases hstep
          · obtain rfl := Except.ok.inj hstep
            refine .named w ?_
            rw [commasRead_append_of_ne (by simp) (by simp) (by simp)]
            exact h.fits (hplain (by simp))
      | opening =>
          dsimp only at hstep
          split at hstep
          · cases hstep
          · obtain rfl := Except.ok.inj hstep
            refine of_fits ?_ rfl
            rw [commasRead_append_singleton]
            cases h with
            | plain h => exact .group h
            | named w h => exact .call w 0 h

theorem run (h : Disciplined read c) {ts : List Token}
    (hrun : ts.foldlM Conversion.step c = .ok c') :
    Disciplined (read ++ ts) c' := by
  induction ts generalizing read c with
  | nil =>
      obtain rfl := Except.ok.inj hrun
      rwa [List.append_nil]
  | cons t ts ih =>
      rw [List.foldlM_cons] at hrun
      obtain ⟨middle, hstep, hrest⟩ := exists_of_bind_eq_ok hrun
      have hlast := ih (h.step hstep) hrest
      rwa [List.append_assoc] at hlast

theorem failsWith_close (h : Disciplined read c) (hplain : c.awaitsParenthesis = false) :
    FailsWith (· ≠ .malformedCall) c.close := by
  refine Conversion.failsWith_close (fun _ hcause _ => hcause) c
    (.inr fun moved call ps hmoved hps count hcall => ?_)
  obtain ⟨rest, hrest, hfits⟩ := (h.fits hplain).unstackToOpening hmoved
  rw [hps, hcall] at hfits
  generalize commasRead read = counts at hfits
  cases hfits with
  | operator ht => exact absurd rfl (ne_opening_of_isOperator ht)
  | call w count h => exact ⟨w, _, hrest⟩

theorem failsWith_step (h : Disciplined read c) (t : Token) :
    FailsWith (· ≠ .malformedCall) (c.step t) :=
  Conversion.failsWith_step (fun _ hcause _ => hcause) c t h.failsWith_close

theorem failsWith_run (h : Disciplined read c) (ts : List Token) :
    FailsWith (· ≠ .malformedCall) (ts.foldlM Conversion.step c) := by
  induction ts generalizing read c with
  | nil => exact .ok _
  | cons t ts ih =>
      rw [List.foldlM_cons]
      exact (h.failsWith_step t).bind fun _ hstep => ih (h.step hstep)

end Disciplined

/-- After any tokens that are read without a fault, the open parentheses on the stack of operators
and the entries of the other stack correspond in order. An entry counts arguments exactly if a name
lies directly under its parenthesis, and then one more than commas were read at that level. A
parenthesis is awaited exactly if a name is on top. So a parenthesis that closes an open one finds
an entry, and a call finds its name. -/
theorem stacks_are_disciplined :
    (∀ (read : List Token) (c : Conversion), read.foldlM step start = .ok c →
      c.parentheses.length = c.operators.count .opening ∧
      (commasRead read).length = c.parentheses.length ∧
      (∀ above below, c.operators = above ++ .opening :: below →
        ∃ commas, (commasRead read)[above.count .opening]? = some commas ∧
          c.parentheses[above.count .opening]? =
            some (if hasNameOnTop below then some (commas + 1) else none)) ∧
      c.awaitsParenthesis = hasNameOnTop c.operators ∧
      (∀ t, c.step t ≠ .error (.failure .malformedCall)) ∧
      ∀ moved, unstackToOpening c.output c.operators = .ok moved → c.parentheses ≠ []) ∧
    ∀ ts, toPostfix ts ≠ .error (.failure .malformedCall) := by
  refine ⟨fun read c hrun => ?_, fun ts => ?_⟩
  · have h : Disciplined read c := Disciplined.start.run hrun
    obtain ⟨hparentheses, hcommas⟩ := h.length_eq
    exact ⟨hparentheses, hcommas, fun _ _ => h.entry, h.awaitsParenthesis_eq,
      fun t => (h.failsWith_step t).ne_error, fun _ => h.parentheses_ne_nil⟩
  · exact ((Disciplined.start.failsWith_run ts).bind fun c _ =>
      failsWith_finish (fun _ hcause _ => hcause) c).ne_error

theorem stacks_are_disciplined_nested :
    ∃ read c, read = [.name "pow", .opening, .name "sin", .opening, .pi, .closing, .comma, .opening,
      .euler, .operator .mul] ∧ read.foldlM step start = .ok c ∧ c.operators = [.operator .mul,
      .opening] ++ .opening :: [.name "pow"] ∧ commasRead read = [0,
      1] ∧ c.parentheses.length = 2 ∧ c.parentheses[1]? = some (some 2) ∧
      c.awaitsParenthesis = false ∧ c.step .closing ≠ .error (.failure .malformedCall) := by
  have hrun : [.name "pow", .opening, .name "sin", .opening, .pi, .closing, .comma, .opening,
      .euler, .operator .mul].foldlM step
      start = .ok ⟨[.euler, .call "sin" 1, .pi], [.operator .mul, .opening, .opening, .name "pow"],
        [none, some 2], false, false⟩ := by rfl
  obtain ⟨hlength, -, hentry, hawaits, hformed, -⟩ := stacks_are_disciplined.1 _ _ hrun
  obtain ⟨commas, hcommas, hcount⟩ := hentry [.operator .mul, .opening] [.name "pow"] rfl
  obtain rfl : 1 = commas := Option.some.inj hcommas
  exact ⟨_, _, rfl, hrun, rfl, rfl, hlength, hcount, hawaits, hformed .closing⟩

end TalkingCalculator.Conversion
