import TagFormula.App
import TagFormula.Editor.Run

/-!
All that can happen to the application: actions, typed text, frames that take in suggestions, and
what the worker and the clock do meanwhile. The editor goes through the events of its own that
these come down to; what is shown of them does not reach it.
-/
namespace TagFormula.App

inductive Event where
  | act (a : Action)
  | typeText (text : String)
  | clearResults
  | harvest
  /-- Waits for what is expected, the worker and the clock going on. -/
  | await
  | take (count : Nat)
  | serveNext
  | drain
  | advanceTo (time : Nat)
  deriving DecidableEq

def Event.ofEditor : Event → List Editor.Event
  | act a => [.act a]
  | typeText text => (Typing.actions text).map .act
  | clearResults => []
  | harvest => [.harvest]
  | await => [.await]
  | take count => [.take count]
  | serveNext => [.serveNext]
  | drain => [.drain]
  | advanceTo time => [.advanceTo time]

variable {σ : Type}

def onLookup (a : App σ) (f : Lookup → Lookup) : App σ := { a with editor := a.editor.onLookup f }

def perform [Store σ] (a : App σ) : Event → App σ
  | .act action => a.apply action
  | .typeText text => a.typeText text
  | .clearResults => a.clearResults
  | .harvest => a.harvest
  | .await => a.await
  | .take count => a.onLookup (·.take count)
  | .serveNext => a.onLookup Lookup.serveNext
  | .drain => a.onLookup Lookup.drain
  | .advanceTo time => a.onLookup (·.advanceTo time)

def run [Store σ] (a : App σ) (xs : List Event) : App σ := xs.foldl perform a

/-! ## The editor behind it -/

@[simp] theorem editor_foldl_absorb (a : App σ) (effects : List Effect) :
    (effects.foldl absorb a).editor = a.editor := by
  induction effects generalizing a with
  | nil => rfl
  | cons effect rest ih =>
    rw [List.foldl_cons, ih]
    cases effect <;> rfl

theorem foldl_absorb_warnings (a : App σ) (faults : List StorageFault) :
    ((faults.map Effect.warning).foldl absorb a).result = a.result ∧
      ((faults.map Effect.warning).foldl absorb a).error = a.error ∧
        ((faults.map Effect.warning).foldl absorb a).trace = a.trace := by
  induction faults generalizing a with
  | nil => exact ⟨rfl, rfl, rfl⟩
  | cons fault rest ih => exact ih (a.showWarning fault)

theorem editor_apply [Store σ] (a : App σ) (action : Action) :
    (a.apply action).editor = (a.editor.apply action).2 := by
  have cleared : (if action = .clear then a.clearResults else a).editor = a.editor := by
    split <;> rfl
  simp only [apply, cleared]
  split
  · rw [editor_foldl_absorb]
  · rfl

theorem editor_applyAll [Store σ] (a : App σ) (actions : List Action) :
    (a.applyAll actions).editor = (a.editor.run (actions.map .act)).2 := by
  induction actions generalizing a with
  | nil => rfl
  | cons action rest ih =>
    have later := ih (a.apply action)
    rw [editor_apply] at later
    exact later

/-- Only the log tells the editor of an application from one that goes through the events by
itself. -/
theorem editor_perform [Store σ] (a : App σ) (x : Event) :
    ∃ notices, (a.perform x).editor = { (a.editor.run x.ofEditor).2 with notices := notices } := by
  cases x with
  | act action => exact ⟨_, a.editor_apply action⟩
  | typeText text => exact ⟨_, a.editor_applyAll (Typing.actions text)⟩
  | harvest =>
    simp only [perform, harvest, Event.ofEditor, Editor.run, Editor.perform]
    rcases a.editor.harvest with ⟨_ | _ | fault, e⟩ <;> exact ⟨_, rfl⟩
  | await =>
    simp only [perform, await, Event.ofEditor, Editor.run, Editor.perform]
    rcases a.editor.await with ⟨_ | _ | fault, e⟩ <;> exact ⟨_, rfl⟩
  | _ => exact ⟨_, rfl⟩

theorem run_keeps [Store σ] {P : Editor σ → Prop}
    (step : ∀ e x, P e → P (Editor.perform e x).2)
    (log : ∀ e notices, P e → P { e with notices := notices })
    {a : App σ} (start : P a.editor) (xs : List Event) : P (a.run xs).editor := by
  induction xs generalizing a with
  | nil => exact start
  | cons x rest ih =>
    refine ih ?_
    obtain ⟨notices, same⟩ := a.editor_perform x
    rw [same]
    exact log _ notices (Editor.run_keeps step start x.ofEditor)

end TagFormula.App
