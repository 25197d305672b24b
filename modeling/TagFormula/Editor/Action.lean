import TagFormula.Evaluation
import TagFormula.Suggestion

/-!
What a user does to an editor, and what comes back.
-/
namespace TagFormula

inductive Action where
  /-- The entry field has a new text. -/
  | type (text : String)
  /-- Backspace. -/
  | erase
  /-- A typed character; it counts if it is an operator. -/
  | operator (c : Char)
  /-- The entry becomes a tag. -/
  | commit
  | acceptFirst
  /-- A suggestion of the list is taken. -/
  | choose (s : Suggestion)
  | evaluate
  | select (index : Nat)
  | replaceWith (index : Nat) (s : Suggestion)
  | remove (index : Nat)
  | startRename (index : Nat)
  | typeRename (text : String)
  | finishRename
  | cancelRename
  | clickOutside
  | clear
  deriving DecidableEq

inductive Effect where
  | result (value : Float) (trace : Trace)
  | failure (fault : StructureFault)
  /-- Nothing is lost: the edition took place. -/
  | warning (fault : StorageFault)
  deriving DecidableEq

end TagFormula
