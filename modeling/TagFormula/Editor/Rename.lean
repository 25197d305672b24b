import TagFormula.Editor.Change
import TagFormula.Number.Literal
import TagFormula.Text.Blank

/-!
Selecting and renaming tags. Starting on one tag ends the rename of another; a rename that
leaves the name as it was, or blank, changes nothing.
-/
namespace TagFormula.Editor

variable {σ : Type}

/-- What a tag becomes under a new name: a number if the name is one, else a variable without
a value, the same one if it was a variable. Suggestions are not asked for. -/
def renamed (e : Editor σ) (old : Token) (name : String) : Token × Editor σ :=
  match Number.read? name, old with
  | some v, _ => (.ofFloat v, e)
  | none, .var id _ _ _ => (.var id name .zero none, e)
  | none, _ => e.freshVar name

def applyName [Store σ] (e : Editor σ) (index : Nat) (old : Token) (name : String) :
    Except Fault Unit × Editor σ :=
  if name.isEmpty || name == old.label then (.ok (), e)
  else
    match e.renamed old name with
    | (t, e) => let (outcome, e) := e.replaceAt index t; (outcome.map fun _ => (), e)

def finishRename [Store σ] (e : Editor σ) : Except Fault Unit × Editor σ :=
  match e.session.renameAt with
  | none => (.ok (), e)
  | some index =>
    let closed := { e with session := e.session.withoutRename }
    match e.formula[index]? with
    | none => (.error (e.outOfRange index), closed)
    | some old => closed.applyName index old (Text.trim e.session.renameText)

def finishOtherRename [Store σ] (e : Editor σ) (index : Nat) : Except Fault Unit × Editor σ :=
  match e.session.renameAt with
  | some i => if i = index then (.ok (), e) else e.finishRename
  | none => (.ok (), e)

def select [Store σ] (e : Editor σ) (index : Nat) : Except Fault Unit × Editor σ :=
  if e.formula.length ≤ index then (.error (e.outOfRange index), e)
  else
    match e.finishOtherRename index with
    | (.error fault, e) => (.error fault, e)
    | (.ok (), e) =>
      let selection := if e.session.selection = some index then none else some index
      (.ok (), { e with session := { e.session with selection := selection } })

def replaceWith [Store σ] (e : Editor σ) (index : Nat) (s : Suggestion) :
    Except Fault Unit × Editor σ :=
  match e.insertion s with
  | (t, e) =>
    match e.replaceAt index t with
    | (.error fault, e) => (.error fault, e)
    | (.ok _, e) => (.ok (), { e with session := { e.session with selection := none } })

def startRename [Store σ] (e : Editor σ) (index : Nat) (label : String) :
    Except Fault Unit × Editor σ :=
  match e.finishOtherRename index with
  | (.error fault, e) => (.error fault, e)
  | (.ok (), e) =>
    (.ok (), { e with session := { e.session with renameAt := some index, renameText := label } })

def typeRename (e : Editor σ) (text : String) : Editor σ :=
  if e.session.renameAt.isSome then { e with session := { e.session with renameText := text } }
  else e

def cancelRename (e : Editor σ) : Editor σ := { e with session := e.session.withoutRename }

end TagFormula.Editor
