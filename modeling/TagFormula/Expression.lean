import TagFormula.Rpn

/-!
Expressions as trees. `value` is what an expression comes to, `steps` the order in which it is
computed: both operands first, the left one before the right one.
-/
namespace TagFormula

open Rpn (Sign Step)

/-- An expression; each node has the position of the tag it comes from. -/
inductive Expression where
  | operand (index : Nat) (value : Float)
  | sign (index : Nat) (s : Sign) (e : Expression)
  | binary (index : Nat) (op : Arithmetic) (left right : Expression)
  deriving DecidableEq

namespace Expression

def value : Expression → Float
  | operand _ v => v
  | sign _ s e => s.apply e.value
  | binary _ op left right => Rpn.compute op left.value right.value

def steps : Expression → List Step
  | operand i v => [⟨i, .push v⟩]
  | sign i s e => e.steps ++ [⟨i, .operate (.sign s)⟩]
  | binary i op left right => left.steps ++ right.steps ++ [⟨i, .operate (.arithmetic op)⟩]

end Expression

end TagFormula
