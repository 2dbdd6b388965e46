import TalkingCalculator.Proofs.DegreeMode
import TalkingCalculator.Proofs.PostfixTrees

namespace TalkingCalculator.Tree

theorem one_le_height (t : Tree) : 1 ≤ t.height := by
  cases t <;> simp [height]

/-- A recursion over trees: what becomes of a node, given what becomes of its children. -/
structure Recursion (α : Type) where
  number : Float → α
  pi : α
  euler : α
  negate : α → α
  apply : UnaryFunction → α → α
  power : α → α → α
  binary : BinaryOperator → α → α → α

namespace Recursion

section

variable {α : Type} (r : Recursion α)

/-- What becomes of a tree. -/
def run : Tree → α
  | .number x => r.number x
  | .pi => r.pi
  | .euler => r.euler
  | .negate a => r.negate (run a)
  | .apply f a => r.apply f (run a)
  | .power a b => r.power (run a) (run b)
  | .binary op a b => r.binary op (run a) (run b)

/-- What becomes of a tree, as long as no more than the given number of calls are nested. -/
def runWithin : Nat → Tree → Option α
  | 0, _ => none
  | _ + 1, .number x => some (r.number x)
  | _ + 1, .pi => some r.pi
  | _ + 1, .euler => some r.euler
  | depth + 1, .negate a => (runWithin depth a).map r.negate
  | depth + 1, .apply f a => (runWithin depth a).map (r.apply f)
  | depth + 1, .power a b => (runWithin depth a).bind fun x => (runWithin depth b).map (r.power x)
  | depth + 1, .binary op a b =>
    (runWithin depth a).bind fun x => (runWithin depth b).map (r.binary op x)

/-- The calls are nested exactly as deep as the tree is high. -/
theorem runWithin_eq (depth : Nat) (t : Tree) :
    r.runWithin depth t = if t.height ≤ depth then some (r.run t) else none := by
  induction depth generalizing t with
  | zero =>
      have hleaf := t.one_le_height
      rw [runWithin, if_neg (by omega)]
  | succ depth ih =>
      cases t with
      | number | pi | euler => simp [runWithin, run, height]
      | negate a | apply f a =>
          simp only [runWithin, ih, height, Nat.add_le_add_iff_right]
          split <;> rfl
      | power a b | binary op a b =>
          simp only [runWithin, ih, height, Nat.add_le_add_iff_right, max_le_iff]
          by_cases ha : a.height ≤ depth <;> by_cases hb : b.height ≤ depth <;> simp [ha, hb, run]

end

def evaluation : Recursion Float where
  number x := x
  pi := piValue
  euler := eulerValue
  negate x := -x
  apply f := f.apply
  power := Float.pow
  binary op := op.apply

def display : Recursion String where
  number := Number.text
  pi := "PI"
  euler := "e"
  negate a := "-" ++ a
  apply f a := f.name ++ "(" ++ a ++ ")"
  power a b := powerName ++ "(" ++ a ++ ", " ++ b ++ ")"
  binary op a b := "(" ++ a ++ String.singleton op.symbol ++ b ++ ")"

def conversion : Recursion Tree where
  number := .number
  pi := .pi
  euler := .euler
  negate := .negate
  apply f a := .apply f (if f.takesAngle then radians a else a)
  power := .power
  binary := .binary

theorem run_evaluation (t : Tree) : evaluation.run t = t.eval := by
  induction t with
  | number | pi | euler => rfl
  | negate a ih => exact congrArg (- ·) ih
  | apply f a ih => exact congrArg f.apply ih
  | power a b iha ihb => exact congrArg₂ Float.pow iha ihb
  | binary op a b iha ihb => exact congrArg₂ op.apply iha ihb

theorem run_display (t : Tree) : display.run t = t.text := by
  induction t with
  | number | pi | euler => rfl
  | negate a ih => rw [run, text, ih]; rfl
  | apply f a ih => rw [run, text, ih]; rfl
  | power a b iha ihb => rw [run, text, iha, ihb]; rfl
  | binary op a b iha ihb => rw [run, text, iha, ihb]; rfl

theorem run_conversion (t : Tree) : conversion.run t = t.inDegrees := by
  induction t with
  | number | pi | euler => rfl
  | negate a ih => rw [run, inDegrees, ih]; rfl
  | apply f a ih => rw [run, inDegrees, ih]; rfl
  | power a b iha ihb => rw [run, inDegrees, iha, ihb]; rfl
  | binary op a b iha ihb => rw [run, inDegrees, iha, ihb]; rfl

end Recursion

theorem height_radians (a : Tree) : (radians a).height = max 2 a.height + 1 :=
  rfl

theorem height_inDegrees_le (t : Tree) : t.inDegrees.height ≤ 2 * t.height := by
  -- In degrees a tree is at most twice as high: each angle is two nodes further down than it was.
  induction t with
  | number | pi | euler =>
      change 1 ≤ 2 * 1
      decide
  | negate a ih =>
      rw [inDegrees, height, height]
      omega
  | apply f a ih =>
      have hleaf := a.one_le_height
      rw [inDegrees, height, height]
      split
      · rw [height_radians]
        omega
      · omega
  | power a b iha ihb =>
      rw [inDegrees, height, height]
      omega
  | binary op a b iha ihb =>
      rw [inDegrees, height, height]
      omega

/-- Sines within one another. In degrees they are twice as high. -/
def nestedSines : Nat → Tree
  | 0 => .pi
  | n + 1 => .apply .sin (nestedSines n)

theorem height_nestedSines (n : Nat) :
    (nestedSines n).height = n + 1 ∧ (0 < n → (nestedSines n).inDegrees.height = 2 * (n + 1)) := by
  induction n with
  | zero => exact ⟨rfl, fun h => absurd h (Nat.lt_irrefl 0)⟩
  | succ n ih =>
      obtain ⟨hheight, hdegrees⟩ := ih
      refine ⟨congrArg (· + 1) hheight, fun _ => ?_⟩
      change max 2 (nestedSines n).inDegrees.height + 1 + 1 = _
      cases n with
      | zero => rfl
      | succ n =>
          rw [hdegrees n.succ_pos]
          omega

theorem Stack.Holds.entry {ts : List Token} {stack : Stack} (h : Holds ts stack) :
    ∀ entry ∈ stack, entry.2 = entry.1.height ∧ entry.1.height ≤ maxHeight := by
  induction h with
  | nil => simp
  | cons below hheight ih => exact List.forall_mem_cons.2 ⟨⟨rfl, hheight⟩, ih⟩

theorem height_of_parse {s : String} {t : Tree} (h : parse s = .ok t) : t.height ≤ maxHeight := by
  obtain ⟨prepared, -, h⟩ := exists_of_bind_eq_ok h
  obtain ⟨tokens, -, h⟩ := exists_of_bind_eq_ok h
  obtain ⟨ordered, -, h⟩ := exists_of_bind_eq_ok h
  exact (eq_postfixOrder_of_ofPostfix h).2

/-- Whatever tokens are read, and whether or not they are refused in the end, each tree on the stack
stands beside its height, and no tree on the stack or in the result is higher than the limit. In
degrees a tree is at most twice as high, and some are. So no text makes the conversion to degrees,
the evaluation or the display recurse deeper than 512. -/
theorem recursion_is_bounded :
    (∀ (read : List Token) (stack : Stack), read.foldlM Stack.step [] = .ok stack →
      ∀ entry ∈ stack, entry.2 = entry.1.height ∧ entry.1.height ≤ maxHeight) ∧
    (∀ ts t, ofPostfix ts = .ok t → t.height ≤ maxHeight) ∧
    (∀ t : Tree, t.inDegrees.height ≤ 2 * t.height) ∧
    (∀ n, 1 < n → ∃ t : Tree, t.height = n ∧ t.inDegrees.height = 2 * n) ∧
    ∀ degrees s t, parse s = .ok t →
      let used := if degrees = true then t.inDegrees else t
      Recursion.conversion.runWithin 512 t = some t.inDegrees ∧
      Recursion.evaluation.runWithin 512 used = some used.eval ∧
        Recursion.display.runWithin 512 used = some used.text := by
  refine ⟨fun read stack hrun => (Stack.Holds.nil.run hrun).entry,
    fun ts t h => (eq_postfixOrder_of_ofPostfix h).2, height_inDegrees_le, fun n hn => ?_,
      fun degrees s t h => ?_⟩
  · obtain ⟨hheight, hdegrees⟩ := height_nestedSines (n - 1)
    exact ⟨_, by rw [hheight]; omega, by rw [hdegrees (by omega)]; omega⟩
  · have hheight : t.height ≤ 256 := height_of_parse h
    have hdegrees := t.height_inDegrees_le
    intro used
    have hused : used.height ≤ 512 := by
      change (if degrees = true then t.inDegrees else t).height ≤ 512
      split <;> omega
    refine ⟨?_, ?_, ?_⟩
    · rw [Recursion.runWithin_eq, if_pos (by omega), Recursion.run_conversion]
    · rw [Recursion.runWithin_eq, if_pos hused, Recursion.run_evaluation]
    · rw [Recursion.runWithin_eq, if_pos hused, Recursion.run_display]

theorem recursion_is_bounded_nested :
    ∃ stack t, stack = [(.number 2, 1), (.negate (.binary .add .pi .euler), 3)] ∧
      t = nestedSines 2 ∧ [.pi, .euler, .operator .add, .negation, .number 2].foldlM Stack.step [] =
        .ok stack ∧
      (∀ entry ∈ stack, entry.2 = entry.1.height ∧ entry.1.height ≤ maxHeight) ∧
      ofPostfix [.pi, .euler, .operator .add] = .ok (.binary .add .pi .euler) ∧
      (binary .add .pi .euler).height ≤ maxHeight ∧ parse "sin(sin(PI))" = .ok t ∧
      t.inDegrees.height = 6 ∧ (∃ u : Tree, u.height = 256 ∧ u.inDegrees.height = 512) ∧
      Recursion.display.runWithin 512 t.inDegrees = some "sin(((PI/180)*sin(((PI/180)*PI))))" := by
  have hread : [.pi, .euler, .operator .add, .negation, .number 2].foldlM Stack.step [] =
      .ok [(.number 2, 1), (.negate (.binary .add .pi .euler), 3)] := by decide +kernel
  have hbuilt : ofPostfix [.pi, .euler, .operator .add] = .ok (.binary .add .pi .euler) := by
    decide +kernel
  have hparse : parse "sin(sin(PI))" = .ok (nestedSines 2) := by decide +kernel
  have htext : (nestedSines 2).inDegrees.text = "sin(((PI/180)*sin(((PI/180)*PI))))" := by
    decide +kernel
  obtain ⟨hstack, htree, -, hsharp, hbounded⟩ := recursion_is_bounded
  obtain ⟨-, -, hdisplay⟩ := hbounded true _ _ hparse
  exact ⟨_, _, rfl, rfl, hread, hstack _ _ hread, hbuilt, htree _ _ hbuilt, hparse, rfl,
    hsharp 256 (by decide), hdisplay.trans (congrArg some htext)⟩

end TalkingCalculator.Tree
