import TagFormula.Lookup.Basic

/-!
What a client sees of its lookup. Neither the worker nor a direct search changes it: only the
client's own demands, cancellations and harvests do.
-/
namespace TagFormula.Lookup

/-- The lookup as its client sees it. -/
structure View where
  generation : Nat
  expected : Option Expected
  candidates : List Suggestion
  candidatesText : String
  deriving DecidableEq

def view (l : Lookup) : View := ⟨l.generation, l.expected, l.candidates, l.candidatesText⟩

@[simp] theorem view_advanceTo (l : Lookup) (time : Nat) : (l.advanceTo time).view = l.view := rfl

@[simp] theorem view_take (l : Lookup) (count : Nat) : (l.take count).view = l.view := by
  unfold take
  split <;> rfl

@[simp] theorem view_serveNext (l : Lookup) : l.serveNext.view = l.view := by
  unfold serveNext
  split
  · split <;> rfl
  · rfl

theorem view_repeat (l : Lookup) (n : Nat) : (n.repeat serveNext l).view = l.view := by
  induction n with
  | zero => rfl
  | succ n ih => simp [Nat.repeat, ih]

@[simp] theorem view_finishBatch (l : Lookup) : l.finishBatch.view = l.view := view_repeat l _

@[simp] theorem view_drain (l : Lookup) : l.drain.view = l.view := by simp [drain]

@[simp] theorem view_ask (l : Lookup) (text : String) : (l.ask text).2.view = l.view := rfl

@[simp] theorem view_collect (l : Lookup) (ticket : Nat) :
    (l.collect ticket).2.view = l.view := by
  unfold collect
  split <;> rfl

@[simp] theorem view_searchNow (l : Lookup) (text : String) :
    (l.searchNow text).2.view = l.view := by simp [searchNow]

@[simp] theorem view_cancel (l : Lookup) :
    l.cancel.view = ⟨l.generation + 1, none, [], ""⟩ := rfl

@[simp] theorem view_request (l : Lookup) (text : String) :
    (l.request text).view =
      ⟨l.generation + 1, some ⟨l.generation + 1, text, l.clock + l.delay⟩, l.candidates,
        l.candidatesText⟩ := rfl

theorem accept_of_not_isExpected {l : Lookup} {r : Reply} (h : l.isExpected r = false) :
    l.accept r = (.nothing, l) := by simp [accept, h]

end TagFormula.Lookup
