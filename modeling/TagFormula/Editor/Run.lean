import TagFormula.Editor.Apply

/-!
All that can happen to an editor: actions, direct changes by its owner, and what the worker and
the clock do meanwhile. A run is a row of such events.
-/
namespace TagFormula.Editor

inductive Event where
  | act (a : Action)
  | append (t : Token)
  | removeAt (index : Nat)
  | replaceAt (index : Nat) (t : Token)
  | resolve (text : String)
  | load
  | takeWarnings
  | harvest
  /-- Waits for what is expected, the worker and the clock going on. -/
  | await
  | take (count : Nat)
  | serveNext
  | drain
  | advanceTo (time : Nat)
  deriving DecidableEq

inductive Outcome where
  | none
  | effects (l : List Effect)
  /-- The tag that was removed or replaced. -/
  | former (t : Token)
  | resolved (t : Token)
  | refused (fault : Fault)
  | loadFault (fault : StorageFault)
  | warnings (l : List StorageFault)
  | harvested (h : Harvest)
  deriving DecidableEq

variable {σ : Type}

def Outcome.ofFormer : Except Fault Token → Outcome
  | .ok t => .former t
  | .error fault => .refused fault

def Outcome.ofEffects : Except Fault (List Effect) → Outcome
  | .ok l => .effects l
  | .error fault => .refused fault

def Outcome.ofLoad : Option StorageFault → Outcome
  | some fault => .loadFault fault
  | Option.none => .none

def perform [Store σ] (e : Editor σ) : Event → Outcome × Editor σ
  | .act a => ((.ofEffects (e.apply a).1), (e.apply a).2)
  | .append t => (.none, e.append t)
  | .removeAt index => (.ofFormer (e.removeAt index).1, (e.removeAt index).2)
  | .replaceAt index t => (.ofFormer (e.replaceAt index t).1, (e.replaceAt index t).2)
  | .resolve text => (.resolved (e.resolve text).1, (e.resolve text).2)
  | .load => (.ofLoad e.load.1, e.load.2)
  | .takeWarnings => (.warnings e.takeWarnings.1, e.takeWarnings.2)
  | .harvest => (.harvested e.harvest.1, e.harvest.2)
  | .await => (.harvested e.await.1, e.await.2)
  | .take count => (.none, e.onLookup (·.take count))
  | .serveNext => (.none, e.onLookup Lookup.serveNext)
  | .drain => (.none, e.onLookup Lookup.drain)
  | .advanceTo time => (.none, e.onLookup (·.advanceTo time))

def run [Store σ] (e : Editor σ) : List Event → List Outcome × Editor σ
  | [] => ([], e)
  | x :: rest =>
    match e.perform x with
    | (o, e) =>
      match e.run rest with
      | (os, e) => (o :: os, e)

theorem run_cons [Store σ] (e : Editor σ) (x : Event) (rest : List Event) :
    e.run (x :: rest) =
      ((e.perform x).1 :: ((e.perform x).2.run rest).1, ((e.perform x).2.run rest).2) := rfl

theorem run_append [Store σ] (e : Editor σ) (a b : List Event) :
    e.run (a ++ b) = ((e.run a).1 ++ ((e.run a).2.run b).1, ((e.run a).2.run b).2) := by
  induction a generalizing e with
  | nil => simp [run]
  | cons x rest ih => simp [run, ih]

theorem run_keeps [Store σ] {P : Editor σ → Prop} (step : ∀ e x, P e → P (e.perform x).2)
    {e : Editor σ} (start : P e) (xs : List Event) : P (e.run xs).2 := by
  induction xs generalizing e with
  | nil => exact start
  | cons x rest ih => exact ih (step e x start)

end TagFormula.Editor
