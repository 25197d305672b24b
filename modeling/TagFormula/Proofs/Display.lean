import TagFormula.App.Run
import TagFormula.Proofs.Delivery

/-!
What the application displays, as a function of all that has happened to it. Only values, failures
and clearings are news to the display; edits, typed text, warnings and suggestions are none. The
result outlives later failures, its trace does not.
-/
namespace TagFormula

/-- What changes the result, the error or the trace on display. -/
inductive News where
  | value (v : Float) (trace : Trace)
  | failed (message : String)
  | cleared
  deriving DecidableEq

namespace News

def isCleared : News → Bool
  | cleared => true
  | _ => false

def value? : News → Option (Float × Trace)
  | value v trace => some (v, trace)
  | _ => none

/-! ## What a row of news leaves on display, the newest being first -/

def lastValue? (ns : List News) : Option (Float × Trace) :=
  (ns.takeWhile (!·.isCleared)).findSome? value?

def result (ns : List News) : String :=
  ((lastValue? ns).map fun v => Number.display v.1).getD ""

def error : List News → String
  | failed message :: _ => message
  | _ => ""

def trace : List News → Trace
  | value _ trace :: _ => trace
  | _ => .empty

theorem result_failed (message : String) (ns : List News) :
    result (failed message :: ns) = result ns := rfl

theorem of_trace {ns : List News} (shown : trace ns ≠ .empty) :
    error ns = "" ∧ ∃ v, lastValue? ns = some (v, trace ns) ∧ result ns = Number.display v := by
  cases ns with
  | nil => exact absurd rfl shown
  | cons n rest =>
    cases n with
    | value v t => exact ⟨rfl, v, rfl, rfl⟩
    | failed message => exact absurd rfl shown
    | cleared => exact absurd rfl shown

end News

namespace Editor

variable {σ : Type} [Store σ]

/-- The news an action brings: an evaluation is of the formula with what is in the entry, and a
position without a tag is an error. -/
def news (e : Editor σ) : Action → Option News
  | .clear => some .cleared
  | .evaluate =>
    match Formula.trace (e.formula ++ e.committed) with
    | .ok (v, trace) => some (.value v trace)
    | .error fault => some (.failed fault.message)
  | a =>
    match a.position? with
    | some i => if e.formula.length ≤ i then some (.failed (e.outOfRange i).message) else none
    | none => none

theorem effect_evaluate (e : Editor σ) :
    e.evaluate.1 =
      match Formula.trace (e.formula ++ e.committed) with
      | .ok (v, trace) => .result v trace
      | .error fault => .failure fault := by
  rw [← e.appends_commit.formula]
  cases traced : e.commit.formula.trace with
  | error fault => simp only [evaluate, traced]
  | ok valued => simp only [evaluate, traced]

omit [Store σ] in
theorem news_of_outside {e : Editor σ} {a : Action} {i : Nat} (named : a.position? = some i)
    (outside : e.formula.length ≤ i) : e.news a = some (.failed (e.outOfRange i).message) := by
  cases a with
  | select j | replaceWith j s | remove j | startRename j =>
    cases named
    simp only [news, Action.position?, if_pos outside]
  | _ => cases named

omit [Store σ] in
theorem news_of_inside {e : Editor σ} {a : Action}
    (inside : ∀ i, a.position? = some i → i < e.formula.length) (ordinary : a ≠ .evaluate)
    (keeping : a ≠ .clear) : e.news a = none := by
  cases a with
  | evaluate => exact absurd rfl ordinary
  | clear => exact absurd rfl keeping
  | select j | replaceWith j s | remove j | startRename j =>
    have bound := inside j rfl
    simp only [news, Action.position?, if_neg (Nat.not_le.mpr bound)]
  | _ => rfl

end Editor

namespace App

variable {σ : Type}

structure Displays (ns : List News) (a : App σ) : Prop where
  result : a.result = News.result ns
  error : a.error = News.error ns
  trace : a.trace = News.trace ns

variable {ns : List News} {a : App σ}

theorem Displays.of_same {b : App σ} (h : Displays ns a) (result : b.result = a.result)
    (error : b.error = a.error) (trace : b.trace = a.trace) : Displays ns b :=
  ⟨result.trans h.result, error.trans h.error, trace.trans h.trace⟩

theorem Displays.value (v : Float) (t : Trace) : Displays (.value v t :: ns) (a.showResult v t) :=
  ⟨rfl, rfl, rfl⟩

theorem Displays.failed (h : Displays ns a) (message : String) :
    Displays (.failed message :: ns) (a.showError message) :=
  ⟨h.result.trans (News.result_failed message ns).symm, rfl, rfl⟩

theorem Displays.cleared : Displays (.cleared :: ns) a.clearResults := ⟨rfl, rfl, rfl⟩

theorem Displays.warnings (h : Displays ns a) (faults : List StorageFault) :
    Displays ns ((faults.map Effect.warning).foldl absorb a) := by
  obtain ⟨result, error, trace⟩ := a.foldl_absorb_warnings faults
  exact h.of_same result error trace

def receive (a : App σ) : Except Fault (List Effect) × Editor σ → App σ
  | (.ok effects, e) => effects.foldl absorb { a with editor := e }
  | (.error fault, e) => { a with editor := e }.showError fault.message

variable [Store σ]

theorem apply_eq (a : App σ) (action : Action) :
    a.apply action =
      { (if action = .clear then a.clearResults else a).receive (a.editor.apply action) with
        wantsFocus := true } := by
  have cleared : (if action = .clear then a.clearResults else a).editor = a.editor := by
    split <;> rfl
  simp only [apply, cleared]
  rcases a.editor.apply action with ⟨fault | effects, e⟩ <;> rfl

theorem Displays.receive {e : Editor σ} {action : Action}
    {r : Except Fault (List Effect) × Editor σ} (h : Displays ns a)
    (reports : Editor.Reports e action r) (keeping : action ≠ .clear) :
    Displays ((e.news action).toList ++ ns) (a.receive r) := by
  cases reports with
  | @delivered d inside saved =>
    let b : App σ := { a with editor := d.takeWarnings.2 }
    have begun : Displays ns b := h.of_same rfl rfl rfl
    have shown : a.receive (Editor.deliver (e.announced action) d) =
        (d.warnings.map Effect.warning).foldl absorb ((e.announced action).foldl absorb b) :=
      List.foldl_append
    rw [shown]
    by_cases evaluates : action = .evaluate
    · subst evaluates
      simp only [Editor.announced, Editor.news, Editor.effect_evaluate]
      cases Formula.trace (e.formula ++ e.committed) with
      | error fault => exact (begun.failed _).warnings _
      | ok valued => exact (Displays.value valued.1 valued.2).warnings _
    · have silent : e.announced action = [] := by
        cases action <;> first | rfl | exact absurd rfl evaluates
      rw [silent, Editor.news_of_inside inside evaluates keeping]
      exact begun.warnings _
  | @refused i ids named outside =>
    let b : App σ := { a with editor := { e with ids := ids } }
    have begun : Displays ns b := h.of_same rfl rfl rfl
    rw [Editor.news_of_outside named outside]
    exact begun.failed _
  | @nameless i t a_eq found operator =>
    subst a_eq
    have inside : ∀ j, (Action.startRename i).position? = some j → j < e.formula.length := by
      intro j named
      cases named
      exact (List.getElem?_eq_some_iff.mp found).1
    have ordinary : Action.startRename i ≠ .evaluate := by simp
    rw [Editor.news_of_inside inside ordinary keeping]
    exact h.of_same rfl rfl rfl

theorem Displays.apply (h : Displays ns a) (inRange : a.editor.InRange) (action : Action) :
    Displays ((a.editor.news action).toList ++ ns) (a.apply action) := by
  have reports := Editor.reports_apply inRange action
  rw [apply_eq]
  by_cases clears : action = .clear
  · subst clears
    let emptied := (a.editor.note (.action .clear)).clear
    let b : App σ := { a.clearResults with editor := emptied.takeWarnings.2 }
    have begun : Displays (.cleared :: ns) b := (Displays.cleared (a := a)).of_same rfl rfl rfl
    exact (begun.warnings emptied.warnings).of_same rfl rfl rfl
  · rw [if_neg clears]
    exact (h.receive reports clears).of_same rfl rfl rfl

/-! ## Runs -/

def newsOfActions (a : App σ) : List Action → List News
  | [] => []
  | action :: rest => newsOfActions (a.apply action) rest ++ (a.editor.news action).toList

def newsOf (a : App σ) : Event → List News
  | .act action => (a.editor.news action).toList
  | .typeText text => a.newsOfActions (Typing.actions text)
  | .clearResults => [.cleared]
  | _ => []

/-- All the news of a run, the newest first. -/
def history (a : App σ) : List Event → List News
  | [] => []
  | x :: xs => history (a.perform x) xs ++ a.newsOf x

theorem inRange_perform (inRange : a.editor.InRange) (x : Event) :
    (a.perform x).editor.InRange :=
  run_keeps (P := Editor.InRange) (fun _ x h => Editor.inRange_perform h x)
    (fun _ _ h => ⟨h.selection, h.renameAt⟩) inRange [x]

theorem Displays.applyAll (h : Displays ns a) (inRange : a.editor.InRange) (actions : List Action) :
    Displays (a.newsOfActions actions ++ ns) (a.applyAll actions) := by
  induction actions generalizing ns a with
  | nil => exact h
  | cons action rest ih =>
    have next := ih (h.apply inRange action) (inRange_perform inRange (.act action))
    rw [newsOfActions, List.append_assoc]
    exact next

theorem Displays.perform (h : Displays ns a) (inRange : a.editor.InRange) (x : Event) :
    Displays (a.newsOf x ++ ns) (a.perform x) := by
  have unseen (r : Harvest × Editor σ) : Displays ns (a.harvested r) := by
    rcases r with ⟨_ | _ | fault, e⟩ <;> exact h.of_same rfl rfl rfl
  cases x with
  | act action => exact h.apply inRange action
  | typeText text => exact h.applyAll inRange (Typing.actions text)
  | clearResults => exact Displays.cleared
  | harvest => exact unseen _
  | await => exact unseen _
  | take count | serveNext | drain | advanceTo time => exact h.of_same rfl rfl rfl

theorem Displays.run (h : Displays ns a) (inRange : a.editor.InRange) (xs : List Event) :
    Displays (a.history xs ++ ns) (a.run xs) := by
  induction xs generalizing ns a with
  | nil => exact h
  | cons x xs ih =>
    have next := ih (h.perform inRange x) (inRange_perform inRange x)
    rw [history, List.append_assoc]
    exact next

theorem load_new (e : Editor σ) (maxSuggestions : Nat) :
    Displays [] (App.new e maxSuggestions).load ∧
      (App.new e maxSuggestions).load.editor.formula = e.load.2.formula ∧
      (App.new e maxSuggestions).load.editor.session = e.load.2.session := by
  have loads : (App.new e maxSuggestions).editor.load = e.load := rfl
  unfold load
  rw [loads]
  rcases e.load with ⟨_ | fault, d⟩ <;> exact ⟨⟨rfl, rfl, rfl⟩, rfl, rfl⟩

/-- After any run of an application that has just been started, the result is that of the last
evaluation that succeeded since the last clearing, the error the last failure if nothing newer
replaces it, and the trace that of the last success likewise. So a trace never stands beside an
error, nor beside the result of another evaluation. -/
theorem display_follows_history (ids : IdSupply) (lookup : Option Lookup) (store : Option σ)
    (notices : List Notice) (maxSuggestions : Nat) (xs : List Event) :
    let started :=
      (App.new { Editor.new ids lookup store with notices := notices } maxSuggestions).load
    let a := started.run xs
    let ns := started.history xs
    a.result = News.result ns ∧ a.error = News.error ns ∧ a.trace = News.trace ns ∧
    (a.trace ≠ .empty → a.error = "" ∧
      ∃ v, News.lastValue? ns = some (v, a.trace) ∧ a.result = Number.display v) := by
  intro started a ns
  let e : Editor σ := { Editor.new ids lookup store with notices := notices }
  have new : e.InRange := ⟨nofun, nofun⟩
  obtain ⟨shown, formula, session⟩ := load_new e maxSuggestions
  have inRange : started.editor.InRange := by
    have loaded := Editor.inRange_perform new .load
    refine ⟨?_, ?_⟩
    · rw [formula, session]
      exact loaded.selection
    · rw [formula, session]
      exact loaded.renameAt
  have displays : Displays ns a := by simpa using shown.run inRange xs
  refine ⟨displays.result, displays.error, displays.trace, ?_⟩
  rw [displays.trace, displays.error, displays.result]
  exact News.of_trace

end App

end TagFormula
