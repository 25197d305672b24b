/-!
Properties of characters as tables: the code points that have a property and those that lack
it lie in alternating runs, and a table holds the lengths of these runs.
-/
namespace TagFormula.Text

/-- Whether `n` lies in the second, fourth, … of consecutive runs of these lengths. -/
def inRuns : List Nat → Nat → Bool
  | out :: inside :: rest, n =>
    if n < out then false
    else if n < out + inside then true
    else inRuns rest (n - (out + inside))
  | _, _ => false

end TagFormula.Text
