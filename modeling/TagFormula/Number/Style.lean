import TagFormula.Number.Shortest

/-!
Written numbers. A style says for which numbers all places are written out, what marks a
whole number, and how the power of ten is written for the others. Every style writes the
shortest digits that read back as the same double.
-/
namespace TagFormula.Number

structure Style where
  tie : Tie
  /-- Whether a number whose first digit has this power of ten is written without one. -/
  isPositional : Int → Bool
  /-- Whole numbers written in full end in `.0`. -/
  marksWhole : Bool
  /-- A power of ten above zero has a plus sign. -/
  marksPower : Bool

namespace Style

/-- Tags and traces: every place written out, a whole number bare. -/
def plain : Style := ⟨.up, fun _ => true, false, false⟩

/-- Displayed results: powers of ten below a millionth and from `10 ^ 15` on. -/
def result : Style := ⟨.up, fun e => decide (-6 ≤ e ∧ e < 15), false, false⟩

def log : Style := ⟨.up, fun e => decide (-4 ≤ e ∧ e < 16), true, false⟩

def stored : Style := ⟨.even, fun e => decide (-5 ≤ e ∧ e < 16), true, true⟩

def positional (marksWhole : Bool) (digits : List Char) (place : Int) : List Char :=
  if 0 ≤ place then
    digits ++ List.replicate place.toNat '0' ++ (if marksWhole then ['.', '0'] else [])
  else
    let after := (-place).toNat
    if after < digits.length then
      digits.take (digits.length - after) ++ '.' :: digits.drop (digits.length - after)
    else
      '0' :: '.' :: (List.replicate (after - digits.length) '0' ++ digits)

def scientific (marksPower : Bool) (digits : List Char) (power : Int) : List Char :=
  let head := match digits with
    | d :: [] => [d]
    | d :: rest => d :: '.' :: rest
    | [] => []
  let sign := if power < 0 then ['-'] else if marksPower then ['+'] else []
  head ++ 'e' :: (sign ++ Nat.toDigits 10 power.natAbs)

def writeMagnitude (s : Style) (m : Nat) : List Char :=
  if m = 0 then if s.marksWhole then ['0', '.', '0'] else ['0']
  else
    let d := shortest s.tie m
    let digits := Nat.toDigits 10 d.digits
    let power := d.place + digits.length - 1
    if s.isPositional power then positional s.marksWhole digits d.place
    else scientific s.marksPower digits power

def write (s : Style) (v : Float) : String :=
  if v.isNaN then "NaN"
  else
    let body :=
      if v.isFinite then s.writeMagnitude (Binary64.magnitude v) else ['i', 'n', 'f']
    String.ofList (if Binary64.isNegative v then '-' :: body else body)

end Style

/-- A result as it is displayed: zero has no sign, and what is not finite has a name of
its own. -/
def display (v : Float) : String :=
  if v.isNaN then "indéfini"
  else if v.isInf then (if Binary64.isNegative v then "-∞" else "∞")
  else if v == 0 then "0"
  else Style.result.write v

end TagFormula.Number
