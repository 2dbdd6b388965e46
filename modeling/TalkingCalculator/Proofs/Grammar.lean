import TalkingCalculator.Expression.Token
import TalkingCalculator.Expression.Tree

/-!
# The grammar of expressions

A sum is a sequence of products, a product a sequence of factors, and a factor a signed atom. An
atom is an operand, a sum in parentheses, or a function applied to as many sums as it takes. The
grammar is stated once for any alphabet: over tokens, and over lexemes, which have percentages
besides.
-/

namespace TalkingCalculator

def Tree.postfixOrder : Tree → List Token
  | number x => [.number x]
  | pi => [.pi]
  | euler => [.euler]
  | negate a => a.postfixOrder ++ [.negation]
  | apply f a => a.postfixOrder ++ [.call f.name 1]
  | power a b => a.postfixOrder ++ b.postfixOrder ++ [.call powerName 2]
  | binary op a b => a.postfixOrder ++ b.postfixOrder ++ [.operator op]

namespace Grammar

/-- The levels of the grammar, from the loosest to the tightest. -/
inductive Tier where
  | sum
  | product
  | factor
  | atom
deriving DecidableEq

/-- `Derives sign Operand level xs t` says that the symbols `xs` form a phrase of the given level
with the tree `t`. The alphabet writes a token `s` as `sign s`, and `Operand` gives the atoms that
need no parentheses. -/
inductive Derives {α : Type} (sign : Token → α) (Operand : List α → Tree → Prop) :
    Tier → List α → Tree → Prop
  | operand {xs t} (h : Operand xs t) : Derives sign Operand .atom xs t
  | parentheses {xs t} (h : Derives sign Operand .sum xs t) :
      Derives sign Operand .atom (sign .opening :: (xs ++ [sign .closing])) t
  | call {xs a} (f : UnaryFunction) (h : Derives sign Operand .sum xs a) :
      Derives sign Operand .atom
        (sign (.name f.name) :: sign .opening :: (xs ++ [sign .closing])) (.apply f a)
  | power {xs ys a b} (ha : Derives sign Operand .sum xs a)
      (hb : Derives sign Operand .sum ys b) :
      Derives sign Operand .atom
        (sign (.name powerName) :: sign .opening ::
          (xs ++ sign .comma :: (ys ++ [sign .closing]))) (.power a b)
  | ofAtom {xs t} (h : Derives sign Operand .atom xs t) : Derives sign Operand .factor xs t
  | minus {xs t} (h : Derives sign Operand .factor xs t) :
      Derives sign Operand .factor (sign (.operator .sub) :: xs) (.negate t)
  | plus {xs t} (h : Derives sign Operand .factor xs t) :
      Derives sign Operand .factor (sign (.operator .add) :: xs) t
  | ofFactor {xs t} (h : Derives sign Operand .factor xs t) : Derives sign Operand .product xs t
  | product {xs ys a b op} (hop : op ∈ [.mul, .div, .rem])
      (ha : Derives sign Operand .product xs a) (hb : Derives sign Operand .factor ys b) :
      Derives sign Operand .product (xs ++ sign (.operator op) :: ys) (.binary op a b)
  | ofProduct {xs t} (h : Derives sign Operand .product xs t) : Derives sign Operand .sum xs t
  | sum {xs ys a b op} (hop : op ∈ [.add, .sub])
      (ha : Derives sign Operand .sum xs a) (hb : Derives sign Operand .product ys b) :
      Derives sign Operand .sum (xs ++ sign (.operator op) :: ys) (.binary op a b)

section Substitution

variable {α β : Type} {signα : Token → α} {signβ : Token → β}
variable {Operandα : List α → Tree → Prop} {Operandβ : List β → Tree → Prop}

theorem Derives.flatMap {level : Tier} {xs : List α} {t : Tree}
    (h : Derives signα Operandα level xs t) (f : α → List β)
    (hsign : ∀ s, f (signα s) = [signβ s])
    (hoperand : ∀ ys a, ys <:+: xs → Operandα ys a →
      Derives signβ Operandβ .atom (ys.flatMap f) a) :
    Derives signβ Operandβ level (xs.flatMap f) t := by
  induction h with
  | operand h => exact hoperand _ _ (List.infix_refl _) h
  | @parentheses xs t h ih =>
      simp only [List.flatMap_cons, List.flatMap_append, List.flatMap_nil, hsign]
      refine .parentheses (ih fun ys a hys => hoperand ys a (hys.trans ?_))
      exact ⟨[signα .opening], [signα .closing], rfl⟩
  | @call xs a g h ih =>
      simp only [List.flatMap_cons, List.flatMap_append, List.flatMap_nil, hsign]
      refine .call g (ih fun ys a hys => hoperand ys a (hys.trans ?_))
      exact ⟨[signα (.name g.name), signα .opening], [signα .closing], rfl⟩
  | @power xs ys a b ha hb iha ihb =>
      simp only [List.flatMap_cons, List.flatMap_append, List.flatMap_nil, hsign]
      refine .power (iha fun zs a hzs => hoperand zs a (hzs.trans ?_))
        (ihb fun zs a hzs => hoperand zs a (hzs.trans ?_))
      · exact ⟨[signα (.name powerName), signα .opening],
          signα .comma :: (ys ++ [signα .closing]), by simp⟩
      · exact ⟨signα (.name powerName) :: signα .opening :: (xs ++ [signα .comma]),
          [signα .closing], by simp⟩
  | ofAtom h ih => exact .ofAtom (ih hoperand)
  | minus h ih =>
      rw [List.flatMap_cons, hsign]
      exact .minus (ih fun ys a hys => hoperand ys a (hys.trans (List.suffix_cons _ _).isInfix))
  | plus h ih =>
      rw [List.flatMap_cons, hsign]
      exact .plus (ih fun ys a hys => hoperand ys a (hys.trans (List.suffix_cons _ _).isInfix))
  | ofFactor h ih => exact .ofFactor (ih hoperand)
  | @product xs ys a b op hop ha hb iha ihb =>
      rw [List.flatMap_append, List.flatMap_cons, hsign]
      refine .product hop (iha fun zs a hzs => hoperand zs a (hzs.trans ?_))
        (ihb fun zs a hzs => hoperand zs a (hzs.trans ?_))
      · exact (List.prefix_append _ _).isInfix
      · exact ⟨xs ++ [signα (.operator op)], [], by simp⟩
  | ofProduct h ih => exact .ofProduct (ih hoperand)
  | @sum xs ys a b op hop ha hb iha ihb =>
      rw [List.flatMap_append, List.flatMap_cons, hsign]
      refine .sum hop (iha fun zs a hzs => hoperand zs a (hzs.trans ?_))
        (ihb fun zs a hzs => hoperand zs a (hzs.trans ?_))
      · exact (List.prefix_append _ _).isInfix
      · exact ⟨xs ++ [signα (.operator op)], [], by simp⟩

theorem Derives.mono {Operand Operand' : List α → Tree → Prop} {level : Tier} {xs : List α}
    {t : Tree} (h : Derives signα Operand level xs t)
    (hoperand : ∀ ys a, ys <:+: xs → Operand ys a → Operand' ys a) :
    Derives signα Operand' level xs t := by
  have hsingle : Derives signα Operand' level (xs.flatMap fun x => [x]) t := by
    refine h.flatMap (fun x => [x]) (fun _ => rfl) fun ys a hys ha => ?_
    rw [List.flatMap_singleton']
    exact .operand (hoperand ys a hys ha)
  rwa [List.flatMap_singleton'] at hsingle

end Substitution

end Grammar

inductive Token.IsOperand : List Token → Tree → Prop
  | number (x : Float) : IsOperand [.number x] (.number x)
  | pi : IsOperand [.pi] .pi
  | euler : IsOperand [.euler] .euler

/-- `IsExpression ts t` says that the tokens `ts` write an expression with the tree `t`. -/
abbrev IsExpression (ts : List Token) (t : Tree) : Prop :=
  Grammar.Derives id Token.IsOperand .sum ts t

def Tree.hundredth (x : Float) : Tree :=
  .binary .div (.number x) (.number 100)

/-- What the text of an expression is composed of: tokens, and percentages. -/
inductive Lexeme where
  | token (t : Token)
  | percentage (x : Float)
deriving DecidableEq

namespace Lexeme

/-- The tokens that a lexeme stands for. A percentage is a quotient in parentheses. -/
def tokens : Lexeme → List Token
  | token t => [t]
  | percentage x => [.opening, .number x, .operator .div, .number 100, .closing]

inductive IsOperand : List Lexeme → Tree → Prop
  | token {t a} (h : Token.IsOperand [t] a) : IsOperand [.token t] a
  | percentage (x : Float) : IsOperand [.percentage x] (.hundredth x)

/-- The operands when a percentage may also stand for the parenthesized argument of a function. -/
inductive IsLooseOperand : List Lexeme → Tree → Prop
  | ofIsOperand {ls a} (h : IsOperand ls a) : IsLooseOperand ls a
  | call (f : UnaryFunction) (x : Float) :
      IsLooseOperand [.token (.name f.name), .percentage x] (.apply f (.hundredth x))

/-- `IsExpression ls t` says that the lexemes `ls` write an expression with the tree `t`. -/
abbrev IsExpression (ls : List Lexeme) (t : Tree) : Prop :=
  Grammar.Derives Lexeme.token IsOperand .sum ls t

/-- Derivations in which a percentage may stand for the argument of a function. -/
abbrev LooselyDerives : Grammar.Tier → List Lexeme → Tree → Prop :=
  Grammar.Derives Lexeme.token IsLooseOperand

end Lexeme

end TalkingCalculator
