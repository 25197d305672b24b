import TagFormula.Lookup.Basic

/-!
All that can happen to a lookup: the calls of its client, the steps of the worker, and the
clock. A run is a row of such events, in whatever order the two sides happen to go on.
-/
namespace TagFormula.Lookup

inductive Event where
  | request (text : String)
  | cancel
  | harvest
  /-- Waits for what is expected, the worker and the clock going on. -/
  | await
  /-- Asks directly, and waits for the reply. -/
  | searchNow (text : String)
  | ask (text : String)
  /-- Takes the reply to a direct demand, or gives up. -/
  | collect (ticket : Nat)
  | take (count : Nat)
  | serveNext
  | drain
  | advanceTo (time : Nat)
  deriving DecidableEq, Repr

inductive Outcome where
  | none
  | harvested (h : Harvest)
  | found (result : Except Fault (List Suggestion))
  | ticket (n : Nat)

def perform (l : Lookup) : Event → Outcome × Lookup
  | .request text => (.none, l.request text)
  | .cancel => (.none, l.cancel)
  | .harvest => (.harvested l.harvest.1, l.harvest.2)
  | .await => (.harvested l.await.1, l.await.2)
  | .searchNow text => (.found (l.searchNow text).1, (l.searchNow text).2)
  | .ask text => (.ticket (l.ask text).1, (l.ask text).2)
  | .collect ticket => (.found (l.collect ticket).1, (l.collect ticket).2)
  | .take count => (.none, l.take count)
  | .serveNext => (.none, l.serveNext)
  | .drain => (.none, l.drain)
  | .advanceTo time => (.none, l.advanceTo time)

def run (l : Lookup) : List Event → List Outcome × Lookup
  | [] => ([], l)
  | x :: rest =>
    match l.perform x with
    | (o, l) =>
      match l.run rest with
      | (os, l) => (o :: os, l)

theorem run_append (l : Lookup) (a b : List Event) :
    l.run (a ++ b) = ((l.run a).1 ++ ((l.run a).2.run b).1, ((l.run a).2.run b).2) := by
  induction a generalizing l with
  | nil => simp [run]
  | cons x rest ih => simp [run, ih]

end TagFormula.Lookup
