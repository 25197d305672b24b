import TagFormula.Number.Binary64

/-!
The shortest decimal that denotes a given double. The grids of multiples of `10 ^ place`
are tried from the coarsest on: the first one with a point that reads back as the double
has the fewest digits, and only the two neighbours of the exact value can be that point.
-/
namespace TagFormula.Number

inductive Tie where
  | up
  | even
  deriving DecidableEq, Repr

structure Scaled where
  digits : Nat
  place : Int
  deriving DecidableEq, Repr

namespace Shortest

def readsBack (m count : Nat) (place : Int) : Bool :=
  Binary64.nearest? (Ratio.scaled 10 count place) == some m

def nearer (tie : Tie) (low rest den : Nat) : Nat :=
  if 2 * rest < den then low
  else if den < 2 * rest then low + 1
  else match tie with
    | .up => low + 1
    | .even => low + low % 2

def onGrid? (tie : Tie) (m : Nat) (place : Int) : Option Nat :=
  let exact := Binary64.ratio m
  let num := exact.num * Nat.pow 10 (-place).toNat
  let den := exact.den * Nat.pow 10 place.toNat
  let low := num / den
  match readsBack m low place, readsBack m (low + 1) place with
  | true, true => some (nearer tie low (num % den) den)
  | true, false => some low
  | false, true => some (low + 1)
  | false, false => none

def search (tie : Tie) (m : Nat) : Nat → Int → Option Scaled
  | 0, _ => none
  | count + 1, place =>
    match onGrid? tie m place with
    | some digits => some ⟨digits, place⟩
    | none => search tie m count (place - 1)

/-- A place above every grid that can hold a point for `m`: the double is below
`2 ^ (e + 1)` and what reads back as it below twice that. -/
def topPlace (m : Nat) : Int :=
  let r := Binary64.ratio m
  let e : Int := (Nat.log2 r.num : Int) - Nat.log2 r.den
  (e + 2) * 30103 / 100000 + 1

def exact (m : Nat) : Scaled :=
  let d := Binary64.dyadic m
  ⟨d.mantissa * Nat.pow 2 d.place.toNat * Nat.pow 5 (-d.place).toNat, min d.place 0⟩

end Shortest

/-- The shortest decimal for a positive finite magnitude, the nearest of several. Seventeen
digits suffice for every double, so the search ends within twenty grids. -/
def shortest (tie : Tie) (m : Nat) : Scaled :=
  (Shortest.search tie m 24 (Shortest.topPlace m)).getD (Shortest.exact m)

end TagFormula.Number
