import TagFormula.Text.Lowercase
import TagFormula.Token

/-!
Suggestions: the entries a source offers for a text. Names are compared without regard to
capitals, and the order of the entries is kept.
-/
namespace TagFormula

structure Suggestion where
  id : String
  name : String
  category : String
  value : Float
  deriving DecidableEq

namespace Suggestion

def alike (s t : Suggestion) : Bool :=
  s.id == t.id && s.name == t.name && s.category == t.category && s.value == t.value

def operatorCategory : String := "operator"

def operator? (s : Suggestion) : Option Operator :=
  if s.category = operatorCategory then Operator.ofText? s.name else none

/-- The tag that choosing this entry inserts. A variable is a new instance each time, with
an identifier of its own. -/
def insert (s : Suggestion) (ids : IdSupply) : Token × IdSupply :=
  match s.operator? with
  | some op => (.operator op, ids)
  | none => (.var ids.id s.name (Amount.ofFloat s.value) (some s.category), ids.advance)

def nameContains (s : Suggestion) (small : List Char) : Bool :=
  Text.occursIn small (Text.lower s.name).toList

def filter (text : String) (entries : List Suggestion) : List Suggestion :=
  let small := (Text.lower text).toList
  entries.filter (·.nameContains small)

/-- The first entry with this very name, else the first whose name contains the text. -/
def best? (text : String) (entries : List Suggestion) : Option Suggestion :=
  let small := Text.lower text
  match entries.find? (fun s => Text.lower s.name == small) with
  | some s => some s
  | none => entries.find? (·.nameContains small.toList)

end Suggestion

end TagFormula
