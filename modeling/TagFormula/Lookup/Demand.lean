import TagFormula.Fault
import TagFormula.Suggestion

/-!
What passes between a client, the worker that looks suggestions up for it, and the source the
worker asks.
-/
namespace TagFormula

inductive Answer where
  | reply (result : Except Fault (List Suggestion))
  /-- No answer, ever: the worker stays with this lookup. -/
  | silence

/-- A source of suggestions: what it answers to a text that is the `n`-th one put to it. -/
abbrev Source := Nat → String → Answer

def Source.catalogue (entries : List Suggestion) : Source :=
  fun _ text => .reply (.ok (Suggestion.filter text entries))

inductive Demand where
  /-- May be skipped when a later one of this kind waits. -/
  | latest (generation : Nat) (text : String)
  | direct (ticket : Nat) (text : String)
  deriving DecidableEq, Repr

namespace Demand

def text : Demand → String
  | latest _ t => t
  | direct _ t => t

def isPerishable : Demand → Bool
  | latest .. => true
  | direct .. => false

/-- What a batch comes down to: of the perishable demands only the last one. -/
def withoutSuperseded : List Demand → List Demand
  | [] => []
  | d :: rest =>
    if d.isPerishable && rest.any isPerishable then withoutSuperseded rest
    else d :: withoutSuperseded rest

theorem withoutSuperseded_sublist (batch : List Demand) :
    (withoutSuperseded batch).Sublist batch := by
  induction batch with
  | nil => exact List.Sublist.refl _
  | cons d rest ih =>
    rw [withoutSuperseded]
    split
    · exact ih.cons d
    · exact ih.cons_cons d

theorem filter_withoutSuperseded (batch : List Demand) :
    (withoutSuperseded batch).filter (!·.isPerishable) = batch.filter (!·.isPerishable) := by
  induction batch with
  | nil => rfl
  | cons d rest ih =>
    rw [withoutSuperseded]
    split
    · next skipped =>
      simp only [Bool.and_eq_true] at skipped
      simp [ih, skipped.1]
    · simp [List.filter_cons, ih]

theorem filter_isPerishable_withoutSuperseded (batch : List Demand) :
    (withoutSuperseded batch).filter isPerishable =
      (batch.filter isPerishable).getLast?.toList := by
  induction batch with
  | nil => rfl
  | cons d rest ih =>
    rw [withoutSuperseded]
    by_cases perishable : d.isPerishable
    · by_cases later : rest.any isPerishable
      · have left : rest.filter isPerishable ≠ [] := by
          simpa [List.filter_eq_nil_iff] using later
        simp [perishable, later, ih, List.getLast?_cons_of_ne_nil, left]
      · have none_left : rest.filter isPerishable = [] := by
          simpa [List.filter_eq_nil_iff] using later
        simp [perishable, later, ih, none_left]
    · simp [perishable, ih]

end Demand

structure Reply where
  demand : Demand
  result : Except Fault (List Suggestion)

structure Expected where
  generation : Nat
  text : String
  deadline : Nat
  deriving DecidableEq, Repr

end TagFormula
