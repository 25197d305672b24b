import TagFormula.App

/-!
What is on screen, and what keys and clicks do. The elements are drawn in a fixed order; each
one knows what a click on it means. The keyboard is in the rename field as long as a tag is
under rename, else in the entry field or nowhere; every action brings it back to the entry
field.
-/
namespace TagFormula

inductive Target where
  | nothing
  | action (a : Action)
  | entryField
  | renameField
  | tracePanel
  deriving DecidableEq

inductive Element where
  | label (text : String)
  | button (text : String) (target : Target)
  | field (text : String) (isActive : Bool) (target : Target)
  deriving DecidableEq

namespace Element

def text : Element → String
  | label t | button t _ | field t _ _ => t

def target : Element → Target
  | label _ => .nothing
  | button _ t | field _ _ t => t

end Element

inductive Key where
  | enter
  | tab
  | backspace
  | escape
  deriving DecidableEq, Repr

structure Screen (σ : Type) where
  app : App σ
  /-- The keyboard is in the entry field when no tag is under rename. -/
  entryHasKeyboard : Bool
  showsTrace : Bool

inductive Keyboard where
  | entry
  | rename
  | nowhere
  deriving DecidableEq, Repr

namespace Screen

variable {σ : Type}

def new (app : App σ) : Screen σ := ⟨app, true, false⟩

def session (s : Screen σ) : Session := s.app.editor.session

def isRenaming (s : Screen σ) : Bool := s.session.renameAt.isSome

def keyboard (s : Screen σ) : Keyboard :=
  if s.isRenaming then .rename else if s.entryHasKeyboard then .entry else .nowhere

def wantsFocus (s : Screen σ) : Bool := s.isRenaming

/-! ## Drawing -/

def tag (renameAt : Option Nat) (renameText : String) (index : Nat) (t : Token) :
    List Element :=
  if renameAt = some index then [.field renameText true .renameField]
  else if t.isOperator then [.label t.label]
  else
    [.button t.label (.action (.select index)), .button "✎" (.action (.startRename index)),
      .button "✕" (.action (.remove index))]

def tags (s : Screen σ) : List Element :=
  let e := s.app.editor
  if e.formula.isEmpty then [.label "(formule vide)"]
  else (e.formula.mapIdx (tag e.session.renameAt e.session.renameText)).flatten

def status (s : Screen σ) : String :=
  match s.app.editor.formula.value with
  | .ok v => "= " ++ Number.display v
  | .error fault => "incomplète : " ++ fault.message

def replacements (s : Screen σ) : List Element :=
  match s.session.selection with
  | none => []
  | some index =>
    let found := s.app.editor.rawCandidates
    let origin :=
      if found.isEmpty then "aucune suggestion (tapez pour en obtenir)"
      else "« " ++ s.app.editor.candidatesText ++ " »"
    .label "Remplacer par :" :: .label origin ::
      (found.take s.app.maxSuggestions).map fun x =>
        .button x.name (.action (.replaceWith index x))

def entry (s : Screen σ) : List Element :=
  .label "Entrée :" ::
    .field s.session.entry (s.keyboard == .entry) .entryField ::
      Operator.all.map (fun op =>
        .button (String.singleton op.symbol) (.action (.operator op.symbol))) ++
    [.button "⌫" (.action .erase), .button "AC" (.action .clear),
      .button "=" (.action .evaluate)]

def suggestion (x : Suggestion) : List Element :=
  .button x.name (.action (.choose x)) ::
    (if x.category.isEmpty then [] else [.label x.category])

def suggestions (s : Screen σ) : List Element :=
  if Text.isBlankText s.session.entry then []
  else
    let found := s.app.editor.candidates
    if found.isEmpty then if s.app.editor.isWaiting then [.label "recherche…"] else []
    else (found.take s.app.maxSuggestions).flatMap suggestion

def labelUnlessEmpty (text : String) : List Element := if text.isEmpty then [] else [.label text]

def results (s : Screen σ) : List Element :=
  .label "Résultat :" :: .label s.app.result ::
    (labelUnlessEmpty s.app.error ++ labelUnlessEmpty s.app.warning)

def tracePanel (s : Screen σ) : List Element :=
  .button "Démarche" .tracePanel ::
    (if s.showsTrace then
      [.label "Jetons :", .label s.app.trace.tokens, .label "RPN :", .label s.app.trace.steps]
    else [])

def elements (s : Screen σ) : List Element :=
  .label "Formule à étiquettes" ::
    (s.tags ++ .label s.status :: s.replacements ++ s.entry ++ s.suggestions ++ s.results ++
      s.tracePanel)

/-! ## Events -/

def act [Store σ] (s : Screen σ) (actions : List Action) : Screen σ :=
  if actions.isEmpty then s
  else { s with app := s.app.applyAll actions, entryHasKeyboard := true }

def activeText (s : Screen σ) : String :=
  match s.keyboard with
  | .entry => s.session.entry
  | .rename => s.session.renameText
  | .nowhere => ""

/-- The active field has a new text; the same text again is no event. -/
def setActiveText [Store σ] (s : Screen σ) (text : String) : Screen σ :=
  if text == s.activeText then s
  else
    match s.keyboard with
    | .entry => s.act (Typing.actions text)
    | .rename => s.act [.typeRename text]
    | .nowhere => s

def insertText [Store σ] (s : Screen σ) (text : String) : Screen σ :=
  s.setActiveText (s.activeText ++ text)

def withoutLast (text : String) : String := String.ofList text.toList.dropLast

def pressInEntry [Store σ] (s : Screen σ) : Key → Screen σ
  | .enter => s.act [if Text.isBlankText s.session.entry then .evaluate else .commit]
  | .tab => s.act [.acceptFirst]
  | .backspace =>
    if s.session.entry.isEmpty then s.act [.erase]
    else s.setActiveText (withoutLast s.session.entry)
  | .escape => s.act [.type ""]

def press [Store σ] (s : Screen σ) (key : Key) : Screen σ :=
  match s.keyboard, key with
  | .entry, key => s.pressInEntry key
  | .rename, .enter => s.act [.finishRename]
  | .rename, .backspace => s.setActiveText (withoutLast s.activeText)
  | .rename, .escape => s.act [.cancelRename]
  | .rename, .tab => s.act [.clickOutside]
  | .nowhere, .escape => s.act [.type ""]
  | .nowhere, _ => s

/-- A press of the mouse anywhere but in the rename field ends a rename; without one it takes
the keyboard away. -/
def leaveField [Store σ] (s : Screen σ) : Screen σ :=
  if s.isRenaming then s.act [.clickOutside] else { s with entryHasKeyboard := false }

def click [Store σ] (s : Screen σ) : Target → Screen σ
  | .nothing => s.leaveField
  | .action a => s.leaveField.act [a]
  | .entryField => { s.leaveField with entryHasKeyboard := true }
  | .renameField => s
  | .tracePanel => let s := s.leaveField; { s with showsTrace := !s.showsTrace }

def doubleClick [Store σ] (s : Screen σ) : Target → Screen σ
  | .action (.select index) => (s.click (.action (.select index))).act [.startRename index]
  | target => (s.click target).click target

def await (s : Screen σ) : Screen σ := { s with app := s.app.await }

end Screen

end TagFormula
