import TagFormula.Number.Decimal
import TagFormula.Text.Blank

/-!
Decimal literals: an optional sign, digits with at most one point among, before or after
them, and an optional power of ten. The whole text has to be one, blanks at its ends
apart, and the number has to be finite: `inf`, `NaN`, `0x10` and `5abc` are no literals.
-/
namespace TagFormula.Number.Literal

def isDigit (c : Char) : Bool := decide ('0' ≤ c ∧ c ≤ '9')

def ofDigits (cs : List Char) : Nat := Nat.ofDigitChars 10 cs 0

def takeSign : List Char → Bool × List Char
  | '-' :: rest => (true, rest)
  | '+' :: rest => (false, rest)
  | rest => (false, rest)

def takeFraction : List Char → List Char × List Char
  | '.' :: rest => rest.span isDigit
  | rest => ([], rest)

def exponent? : List Char → Option Int
  | [] => some 0
  | c :: rest =>
    if c = 'e' ∨ c = 'E' then
      let (negative, digits) := takeSign rest
      if digits.isEmpty || !digits.all isDigit then none
      else some (if negative then -(ofDigits digits : Int) else ofDigits digits)
    else none

def decimal? (cs : List Char) : Option Decimal :=
  let (negative, cs) := takeSign cs
  let (whole, cs) := cs.span isDigit
  let (fraction, cs) := takeFraction cs
  if whole.isEmpty && fraction.isEmpty then none
  else (exponent? cs).map fun e =>
    ⟨negative, ofDigits (whole ++ fraction), e - fraction.length⟩

end TagFormula.Number.Literal

namespace TagFormula.Number

/-- The double a text denotes, if it is a literal of a finite number. -/
def read? (text : String) : Option Float :=
  (Literal.decimal? (Text.trimmed text.toList)).bind Decimal.toFloat?

end TagFormula.Number
