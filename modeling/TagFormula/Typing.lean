import TagFormula.Editor.Action
import TagFormula.Token

/-!
What a text typed into the entry field means. Every operator and every equals sign in it cuts
the text; what stands before a cut is typed first, what is left becomes the new entry. Tabs
are no text.
-/
namespace TagFormula

namespace Typing

def cut? (c : Char) : Option Action :=
  if c = '=' then some .evaluate
  else if (Operator.ofChar? c).isSome then some (.operator c)
  else none

/-- The actions of what follows `piece`, the reversed text since the last cut, if `isCut` there
was one. -/
def actionsFrom (isCut : Bool) (piece : List Char) : List Char → List Action
  | [] => if isCut && piece.isEmpty then [] else [.type (String.ofList piece.reverse)]
  | c :: rest =>
    if c = '\t' then actionsFrom isCut piece rest
    else
      match cut? c with
      | some a => .type (String.ofList piece.reverse) :: a :: actionsFrom true [] rest
      | none => actionsFrom isCut (c :: piece) rest

def actions (text : String) : List Action := actionsFrom false [] text.toList

end Typing

end TagFormula
