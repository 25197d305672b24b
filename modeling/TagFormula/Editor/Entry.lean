import TagFormula.Editor.Change
import TagFormula.Number.Literal
import TagFormula.Text.Blank

/-!
The entry field: what its text stands for, and how it becomes a tag. A number is a number, a
name is looked for among the suggestions, and what is not found is a new variable.
-/
namespace TagFormula.Editor

variable {σ : Type}

def searchBest (e : Editor σ) (text : String) : Option Suggestion × Editor σ :=
  match e.lookup with
  | none => (none, e)
  | some l =>
    match l.searchNow text with
    | (.ok found, l) => (Suggestion.best? text found, { e with lookup := some l })
    | (.error fault, l) => (none, { e with lookup := some l }.note (.unresolved text fault))

/-- The tag a text stands for: the number it is, else the best suggestion for it, else a new
variable of that name. Never fails. An empty text is no search. -/
def resolve (e : Editor σ) (text : String) : Token × Editor σ :=
  let text := Text.trim text
  match Number.read? text with
  | some v => (.ofFloat v, e)
  | none =>
    if text.isEmpty then e.freshVar text
    else
      match e.searchBest text with
      | (some s, e) => e.insertion s
      | (none, e) => e.freshVar text

/-- The entry field has a new text. Suggestions are asked for unless the text is blank or a
lone operator. -/
def type (e : Editor σ) (text : String) : Editor σ :=
  let e := { e with session := { e.session with entry := text } }
  let wanted := Text.trim text
  if wanted.isEmpty || (Operator.ofText? wanted).isSome then e.onLookup Lookup.cancel
  else e.onLookup (·.request wanted)

def clearEntry (e : Editor σ) : Editor σ :=
  { e with session := { e.session with entry := "" } }.onLookup Lookup.cancel

def entryToken (e : Editor σ) : Token × Editor σ :=
  match e.candidates with
  | s :: _ => e.insertion s
  | [] => e.resolve e.session.entry

def commit [Store σ] (e : Editor σ) : Editor σ :=
  if Text.isBlankText e.session.entry then e
  else
    match e.entryToken with
    | (t, e) => (e.append t).clearEntry

def choose [Store σ] (e : Editor σ) (s : Suggestion) : Editor σ :=
  match e.insertion s with
  | (t, e) => (e.append t).clearEntry

def chooseFirst [Store σ] (e : Editor σ) : Editor σ :=
  match e.candidates with
  | s :: _ => e.choose s
  | [] => e

/-- The tag that an operator ends, appended. Its text is resolved, not looked for among the
candidates. -/
def endTag [Store σ] (e : Editor σ) (text : String) : Editor σ :=
  if Text.isBlankText text then e
  else
    match e.resolve text with
    | (t, e) => e.append t

def typeOperator [Store σ] (e : Editor σ) (op : Operator) : Editor σ :=
  let emptied := { e with session := { e.session with entry := "" } }
  ((emptied.endTag e.session.entry).append (.operator op)).clearEntry

def evaluate [Store σ] (e : Editor σ) : Effect × Editor σ :=
  let e := e.commit
  match e.formula.trace with
  | .ok (v, trace) =>
    let e := if e.formula.isEmpty then e else e.note (.computed trace v)
    (.result v trace, e.note (.evaluated v))
  | .error fault => (.failure fault, e.note (.notEvaluated fault))

end TagFormula.Editor
