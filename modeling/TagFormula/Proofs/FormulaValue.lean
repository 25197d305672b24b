import TagFormula.Proofs.Conversion

/-!
The value of a formula is that of its expression. A formula has a value exactly if it is empty
or the grammar derives it; running its steps is never what fails.
-/
namespace TagFormula

open Grammar (Parses)
open Rpn (Step)

namespace Grammar

theorem ne_nil_of_parses {level : Level} {xs : List Rpn.Item} {e : Expression}
    (h : Parses level xs e) : xs ≠ [] := by
  induction h with
  | sumOfProduct _ ih | productOfSigned _ ih | signedOfPower _ ih | powerOfAtom _ ih => exact ih
  | operand i v | parens i j _ | signed i _ _ => exact List.cons_ne_nil _ _
  | sum i _ _ _ | product i _ _ _ | power i _ _ => simp

theorem ofItems_eq_ok_iff {xs : List Rpn.Item} {steps : List Step} (nonempty : xs ≠ []) :
    Rpn.ofItems xs = .ok steps ↔ ∃ e, Parses .sum xs e ∧ steps = e.steps := by
  constructor
  · exact parses_of_ofItems nonempty
  · rintro ⟨e, parses, rfl⟩
    exact ofItems_of_parses parses

end Grammar

namespace Formula

@[simp] theorem items_eq_nil_iff {f : Formula} : Rpn.items f = [] ↔ f = [] := by
  simp [Rpn.items]

theorem value_nil : value [] = .ok 0 := rfl

theorem value_of_refused {f : Formula} {fault : StructureFault}
    (refused : Rpn.ofItems (Rpn.items f) = .error fault) : f.value = .error fault := by
  have nonempty : f.isEmpty = false := by
    cases f with
    | nil => cases refused
    | cons t rest => rfl
  simp [value, trace, nonempty, refused, Except.map]

theorem value_of_parses {f : Formula} {e : Expression} (parses : Parses .sum (Rpn.items f) e) :
    f.value = .ok e.value := by
  have nonempty : f ≠ [] := fun empty =>
    Grammar.ne_nil_of_parses parses (items_eq_nil_iff.mpr empty)
  have converted := Grammar.ofItems_of_parses parses
  simp [value, trace, nonempty, converted, e.run_eq_value, Except.map]

theorem shape (f : Formula) :
    f = [] ∨ (∃ e, Parses .sum (Rpn.items f) e) ∨
      ∃ fault, Rpn.ofItems (Rpn.items f) = .error fault := by
  by_cases empty : f = []
  · exact .inl empty
  · have nonempty : Rpn.items f ≠ [] := fun h => empty (items_eq_nil_iff.mp h)
    cases converted : Rpn.ofItems (Rpn.items f) with
    | error fault => exact .inr (.inr ⟨fault, rfl⟩)
    | ok steps =>
      obtain ⟨e, parses, _⟩ := (Grammar.ofItems_eq_ok_iff nonempty).mp converted
      exact .inr (.inl ⟨e, parses⟩)

theorem value_eq_ok_iff {f : Formula} {v : Float} :
    f.value = .ok v ↔ (f = [] ∧ v = 0) ∨ ∃ e, Parses .sum (Rpn.items f) e ∧ v = e.value := by
  constructor
  · intro found
    rcases f.shape with rfl | ⟨e, parses⟩ | ⟨fault, refused⟩
    · exact .inl ⟨rfl, (Except.ok.inj found).symm⟩
    · rw [value_of_parses parses] at found
      exact .inr ⟨e, parses, (Except.ok.inj found).symm⟩
    · rw [value_of_refused refused] at found
      cases found
  · rintro (⟨rfl, rfl⟩ | ⟨e, parses, rfl⟩)
    · exact value_nil
    · exact value_of_parses parses

theorem value_eq_error_iff {f : Formula} {fault : StructureFault} :
    f.value = .error fault ↔ Rpn.ofItems (Rpn.items f) = .error fault := by
  refine ⟨fun failed => ?_, value_of_refused⟩
  rcases f.shape with rfl | ⟨e, parses⟩ | ⟨other, refused⟩
  · cases failed
  · rw [value_of_parses parses] at failed
    cases failed
  · rw [value_of_refused refused] at failed
    exact Except.error.inj failed ▸ refused

theorem run_of_converted {f : Formula} {steps : List Step}
    (converted : Rpn.ofItems (Rpn.items f) = .ok steps) : ∃ v, Rpn.run steps = .ok v := by
  by_cases empty : f = []
  · subst empty
    cases converted
    exact ⟨0, rfl⟩
  · have nonempty : Rpn.items f ≠ [] := fun h => empty (items_eq_nil_iff.mp h)
    obtain ⟨e, _, rfl⟩ := (Grammar.ofItems_eq_ok_iff nonempty).mp converted
    exact ⟨e.value, e.run_eq_value⟩

/-- The conversion accepts what the grammar derives; its steps are the post-order of the one
parse tree, each with the position of its own tag, and the value is that of the tree. -/
theorem conversion_and_value_follow_grammar (f : Formula) :
    (f ≠ [] → ((∃ steps, Rpn.ofItems (Rpn.items f) = .ok steps) ↔
      ∃ e, Parses .sum (Rpn.items f) e)) ∧
    (∀ e, Parses .sum (Rpn.items f) e →
      (∀ other, Parses .sum (Rpn.items f) other → other = e) ∧
      Rpn.ofItems (Rpn.items f) = .ok e.steps ∧
      (e.steps.map Step.origin).Perm ((Rpn.items f).filter fun item => !item.isParen)) ∧
    (∀ v, f.value = .ok v ↔
      (f = [] ∧ v = 0) ∨ ∃ e, Parses .sum (Rpn.items f) e ∧ v = e.value) ∧
    (∀ fault, f.value = .error fault ↔ Rpn.ofItems (Rpn.items f) = .error fault) ∧
    (∀ steps, Rpn.ofItems (Rpn.items f) = .ok steps → ∃ v, Rpn.run steps = .ok v) := by
  refine ⟨?_, ?_, fun _ => value_eq_ok_iff, fun _ => value_eq_error_iff,
    fun _ => run_of_converted⟩
  · intro nonempty
    have hasItems : Rpn.items f ≠ [] := fun h => nonempty (items_eq_nil_iff.mp h)
    constructor
    · rintro ⟨steps, converted⟩
      obtain ⟨e, parses, _⟩ := (Grammar.ofItems_eq_ok_iff hasItems).mp converted
      exact ⟨e, parses⟩
    · rintro ⟨e, parses⟩
      exact ⟨e.steps, Grammar.ofItems_of_parses parses⟩
  · intro e parses
    exact ⟨fun other h => Grammar.expression_unique h parses, Grammar.ofItems_of_parses parses,
      Grammar.origins_are_items parses⟩

end Formula

end TagFormula
