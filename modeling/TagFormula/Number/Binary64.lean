/-!
Finite doubles as exact numbers. A magnitude is the low 63 bits of a double, read as
a natural number: magnitudes grow with the numbers they stand for, and every magnitude
below `infinity` stands for `mantissa * 2 ^ place`. `nearest` goes back from a ratio of
natural numbers to the magnitude closest to it, a half going to the even neighbour.

A double has 52 bits of fraction, and `0x10000000000000` is `2 ^ 52`, the bit that is not
stored with them; `0x8000000000000000` is `2 ^ 63`, the sign.
-/
namespace TagFormula.Number

structure Dyadic where
  mantissa : Nat
  place : Int
  deriving DecidableEq, Repr

/-- A ratio of natural numbers; the denominator is never zero where one is built. -/
structure Ratio where
  num : Nat
  den : Nat
  deriving DecidableEq, Repr

def Ratio.scaled (base count : Nat) (place : Int) : Ratio :=
  ⟨count * base.pow place.toNat, base.pow (-place).toNat⟩

def roundHalfEven (num den : Nat) : Nat :=
  let q := num / den
  let r := num % den
  if 2 * r < den then q
  else if den < 2 * r then q + 1
  else q + q % 2

namespace Binary64

def infinity : Nat := 0x7ff0000000000000

def magnitude (v : Float) : Nat := v.toBits.toNat % 0x8000000000000000

def isNegative (v : Float) : Bool := decide (0x8000000000000000 ≤ v.toBits.toNat)

def ofMagnitude (negative : Bool) (m : Nat) : Float :=
  Float.ofBits (UInt64.ofNat (if negative then 0x8000000000000000 + m else m))

def dyadic (m : Nat) : Dyadic :=
  let field : Nat := m / 0x10000000000000
  let fraction : Nat := m % 0x10000000000000
  if field = 0 then ⟨fraction, -1074⟩ else ⟨0x10000000000000 + fraction, (field : Int) - 1075⟩

def ratio (m : Nat) : Ratio :=
  Ratio.scaled 2 (dyadic m).mantissa (dyadic m).place

def floorLog2 (r : Ratio) : Int :=
  let e : Int := (Nat.log2 r.num : Int) - Nat.log2 r.den
  if Nat.pow 2 e.toNat * r.den ≤ r.num * Nat.pow 2 (-e).toNat then e else e - 1

def lastPlace (r : Ratio) : Int := max (floorLog2 r - 52) (-1074)

/-- The magnitude closest to a ratio; `none` when that is no finite number. A mantissa
rounded up to `2 ^ 53` carries into the exponent by itself. -/
def nearest? (r : Ratio) : Option Nat :=
  if r.num = 0 then some 0
  else
    let place := lastPlace r
    let mantissa := roundHalfEven (r.num * Nat.pow 2 (-place).toNat) (r.den * Nat.pow 2 place.toNat)
    let m := (place + 1074).toNat * 0x10000000000000 + mantissa
    if m < infinity then some m else none

end Binary64

end TagFormula.Number
