import TagFormula.Number.Binary64

/-!
Decimal numbers with a sign, and the double each one denotes. Reading is exact: the
digits are one natural number, and the double is the nearest one.
-/
namespace TagFormula.Number

/-- The number `± digits * 10 ^ exponent`; the sign is kept for zero too. -/
structure Decimal where
  negative : Bool
  digits : Nat
  exponent : Int
  deriving DecidableEq, Repr

namespace Decimal

def ratio (d : Decimal) : Ratio := Ratio.scaled 10 d.digits d.exponent

/-- The nearest magnitude, if it is finite. The first tests only spare the powers of ten
of numbers that are beyond every double: `digits < 2 ^ (log2 digits + 1)`. -/
def magnitude? (d : Decimal) : Option Nat :=
  if d.digits = 0 then some 0
  else if 400 < d.exponent then none
  else if d.exponent + Nat.log2 d.digits + 1 < -400 then some 0
  else Binary64.nearest? d.ratio

def toFloat? (d : Decimal) : Option Float :=
  d.magnitude?.map (Binary64.ofMagnitude d.negative)

end Decimal

end TagFormula.Number
