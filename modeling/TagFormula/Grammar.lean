import TagFormula.Expression

/-!
The grammar of formulas. A sum is made of products, a product of signed factors, a signed
factor of signs before a power, and the exponent of a power may have signs again. Sums and
products group to the left, powers to the right.
-/
namespace TagFormula.Grammar

open Rpn (Item Sign)

inductive Level where
  | sum
  | product
  | signed
  | power
  | atom
  deriving DecidableEq, Repr

def opItem (i : Nat) (op : Arithmetic) : Item := ⟨i, .operator (.arithmetic op)⟩

/-- `Parses level items e`: the items are an expression of this level, namely `e`. Parentheses
leave no trace in it. -/
inductive Parses : Level → List Item → Expression → Prop where
  | sumOfProduct {xs e} : Parses .product xs e → Parses .sum xs e
  | sum {xs ys l r} {op : Arithmetic} (i : Nat) (isSum : op = .add ∨ op = .subtract) :
    Parses .sum xs l → Parses .product ys r →
      Parses .sum (xs ++ opItem i op :: ys) (.binary i op l r)
  | productOfSigned {xs e} : Parses .signed xs e → Parses .product xs e
  | product {xs ys l r} {op : Arithmetic} (i : Nat)
    (isProduct : op = .multiply ∨ op = .divide) :
    Parses .product xs l → Parses .signed ys r →
      Parses .product (xs ++ opItem i op :: ys) (.binary i op l r)
  | signedOfPower {xs e} : Parses .power xs e → Parses .signed xs e
  | signed {xs e} {op : Arithmetic} {s : Sign} (i : Nat) (isSign : Rpn.signOf? op = some s) :
    Parses .signed xs e → Parses .signed (opItem i op :: xs) (.sign i s e)
  | powerOfAtom {xs e} : Parses .atom xs e → Parses .power xs e
  | power {xs ys l r} (i : Nat) :
    Parses .atom xs l → Parses .signed ys r →
      Parses .power (xs ++ opItem i .power :: ys) (.binary i .power l r)
  | operand (i : Nat) (v : Float) : Parses .atom [⟨i, .operand v⟩] (.operand i v)
  | parens {xs e} (i j : Nat) : Parses .sum xs e →
      Parses .atom (⟨i, .operator .openParen⟩ :: (xs ++ [⟨j, .operator .closeParen⟩])) e

end TagFormula.Grammar
