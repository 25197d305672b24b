import TagFormula.Config
import TagFormula.Editor.Apply
import TagFormula.Storage.FormulaFile
import TagFormula.Typing

/-!
The application: the editor and what is shown of its effects. An evaluation that fails keeps
the result on display and takes away its trace; a warning is only shown.
-/
namespace TagFormula

structure App (σ : Type) where
  editor : Editor σ
  result : String
  error : String
  warning : String
  trace : Trace
  maxSuggestions : Nat
  /-- The entry field is to get the keyboard. -/
  wantsFocus : Bool

namespace App

variable {σ : Type}

def new (editor : Editor σ) (maxSuggestions : Nat) : App σ where
  editor := editor
  result := ""
  error := ""
  warning := ""
  trace := .empty
  maxSuggestions := maxSuggestions
  wantsFocus := true

def note (a : App σ) (n : Notice) : App σ := { a with editor := a.editor.note n }

def showResult (a : App σ) (v : Float) (trace : Trace) : App σ :=
  { a with result := Number.display v, error := "", trace := trace }

def showError (a : App σ) (message : String) : App σ :=
  { a with error := message, trace := .empty }

def showWarning (a : App σ) (fault : StorageFault) : App σ :=
  { a with warning := (Fault.storage fault).message }

def clearResults (a : App σ) : App σ :=
  { a with result := "", error := "", trace := .empty, wantsFocus := true }

def absorb (a : App σ) : Effect → App σ
  | .result v trace => a.showResult v trace
  | .failure fault => a.showError fault.message
  | .warning fault => a.showWarning fault

def apply [Store σ] (a : App σ) (action : Action) : App σ :=
  let a := if action = .clear then a.clearResults else a
  let (outcome, editor) := a.editor.apply action
  let a := { a with editor := editor }
  let a := match outcome with
    | .ok effects => effects.foldl absorb a
    | .error fault => a.showError fault.message
  { a with wantsFocus := true }

def applyAll [Store σ] (a : App σ) (actions : List Action) : App σ := actions.foldl apply a

def typeText [Store σ] (a : App σ) (text : String) : App σ := a.applyAll (Typing.actions text)

def harvested (a : App σ) : Harvest × Editor σ → App σ
  | (.unavailable fault, e) => { a with editor := e }.note (.noSuggestions fault)
  | (_, e) => { a with editor := e }

def harvest (a : App σ) : App σ := a.harvested a.editor.harvest

def await (a : App σ) : App σ := a.harvested a.editor.await

def load [Store σ] (a : App σ) : App σ :=
  match a.editor.load with
  | (none, e) => { a with editor := e }
  | (some fault, e) => ({ a with editor := e }.note (.storedUnreadable fault)).showWarning fault

def store? (c : Config) (env : Environment) (d : Disk) : Option FormulaFile × List Notice :=
  if !c.persists then (none, [])
  else
    match c.formulaPath? env with
    | some path => (some ⟨path, d⟩, [.storedAt path])
    | none => (none, [.notStored])

/-- The application as it starts. `notices` are what was noted before, newest first. -/
def start (c : Config) (env : Environment) (d : Disk) (ids : IdSupply) (notices : List Notice) :
    App FormulaFile :=
  let (store, more) := store? c env d
  let lookup := Lookup.new (.catalogue c.catalogue) c.delay
  let editor := { Editor.new ids (some lookup) store with notices := more ++ notices }
  (new editor c.maxSuggestions).load

def disk (a : App FormulaFile) (d : Disk) : Disk := (a.editor.store.map (·.disk)).getD d

end App

end TagFormula
