import TalkingCalculator.Proofs.Reseeding

namespace TalkingCalculator

theorem UnaryFunction.takesAngle_eq_false_iff (f : UnaryFunction) :
    f.takesAngle = false ↔ f ≠ .sin ∧ f ≠ .cos ∧ f ≠ .tan := by
  cases f <;> decide

namespace Tree

/-- The value of an expression whose angles are in degrees. -/
def degreeValue : Tree → Float
  | number x => x
  | pi => piValue
  | euler => eulerValue
  | negate a => -a.degreeValue
  | apply .sin a => Float.sin (piValue / 180 * a.degreeValue)
  | apply .cos a => Float.cos (piValue / 180 * a.degreeValue)
  | apply .tan a => Float.tan (piValue / 180 * a.degreeValue)
  | apply .sqrt a => Float.sqrt a.degreeValue
  | apply .log a => Float.log a.degreeValue
  | power a b => Float.pow a.degreeValue b.degreeValue
  | binary op a b => op.apply a.degreeValue b.degreeValue

/-- The functions of one argument in an expression, in the order in which it names them. -/
def functions : Tree → List UnaryFunction
  | number _ | pi | euler => []
  | negate a => a.functions
  | apply f a => f :: a.functions
  | power a b | binary _ a b => a.functions ++ b.functions

theorem eval_radians (a : Tree) : (radians a).eval = piValue / 180 * a.eval :=
  rfl

theorem eval_inDegrees (t : Tree) : t.inDegrees.eval = t.degreeValue := by
  induction t with
  | number x => rfl
  | pi => rfl
  | euler => rfl
  | negate a ih => rw [inDegrees, eval, ih, degreeValue]
  | apply f a ih =>
      have hangle : (radians a.inDegrees).eval = piValue / 180 * a.degreeValue := by
        rw [eval_radians, ih]
      cases f with
      | sin => exact congrArg Float.sin hangle
      | cos => exact congrArg Float.cos hangle
      | tan => exact congrArg Float.tan hangle
      | sqrt => exact congrArg Float.sqrt ih
      | log => exact congrArg Float.log ih
  | power a b iha ihb => rw [inDegrees, eval, iha, ihb, degreeValue]
  | binary op a b iha ihb => rw [inDegrees, eval, iha, ihb, degreeValue]

theorem height_lt_height_radians (a : Tree) : a.height < (radians a).height :=
  Nat.lt_succ_of_le (Nat.le_max_right _ _)

theorem height_le_height_inDegrees (t : Tree) : t.height ≤ t.inDegrees.height := by
  induction t with
  | number x => exact Nat.le_refl _
  | pi => exact Nat.le_refl _
  | euler => exact Nat.le_refl _
  | negate a ih => exact Nat.succ_le_succ ih
  | apply f a ih =>
      rw [inDegrees, height, height]
      split
      · exact Nat.succ_le_succ (ih.trans (height_lt_height_radians _).le)
      · exact Nat.succ_le_succ ih
  | power a b iha ihb => exact Nat.succ_le_succ (max_le_max iha ihb)
  | binary op a b iha ihb => exact Nat.succ_le_succ (max_le_max iha ihb)

theorem inDegrees_eq_self_iff (t : Tree) :
    t.inDegrees = t ↔ ∀ f ∈ t.functions, f.takesAngle = false := by
  induction t with
  | number x => simp [inDegrees, functions]
  | pi => simp [inDegrees, functions]
  | euler => simp [inDegrees, functions]
  | negate a ih => simp [inDegrees, functions, ih]
  | apply f a ih =>
      cases hangle : f.takesAngle with
      | false => simp [inDegrees, functions, hangle, ih]
      | true =>
          -- An argument that is scaled is higher than it was, so it is another one.
          have hne : radians a.inDegrees ≠ a := by
            intro heq
            have hheight := congrArg height heq
            have hlt := height_lt_height_radians a.inDegrees
            have hle := height_le_height_inDegrees a
            omega
          simp [inDegrees, functions, hangle, hne]
  | power a b iha ihb => simp [inDegrees, functions, iha, ihb, or_imp, forall_and]
  | binary op a b iha ihb => simp [inDegrees, functions, iha, ihb, or_imp, forall_and]

/-- The form in degrees has the value that the interpreter of degrees finds, and it is the
expression itself exactly if no sine, cosine or tangent is in it. -/
theorem value_in_degrees (t : Tree) :
    t.inDegrees.eval = t.degreeValue ∧
      (t.inDegrees = t ↔ .sin ∉ t.functions ∧ .cos ∉ t.functions ∧ .tan ∉ t.functions) := by
  refine ⟨eval_inDegrees t, ?_⟩
  rw [inDegrees_eq_self_iff]
  simp only [UnaryFunction.takesAngle_eq_false_iff, forall₂_and, ne_eq, List.forall_mem_ne']

end Tree

/-- In degrees, a text has the rounded value that the interpreter of degrees finds for its
expression. -/
theorem evaluate_in_degrees (s : String) :
    evaluate true s = parse s >>= fun t =>
      if Number.IsFinite t.degreeValue then .ok (Number.toTwelvePlaces t.degreeValue)
      else .error (.failure (.notFinite t.degreeValue)) := by
  rw [evaluate_eq]
  refine bind_congr fun t => ?_
  rw [if_pos rfl, Tree.value, Tree.eval_inDegrees]

end TalkingCalculator
