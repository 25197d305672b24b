import TagFormula.Proofs.FormulaValue
import TagFormula.Proofs.Likeness

/-!
The skeleton of a formula: which operators stand where, whatever the operands are. It alone decides
whether the formula has a value or a fault, and which fault, and what the steps do one after the
other. Names, numbers and identifiers only get into the operands of the steps.
-/
namespace TagFormula

def Token.operator? : Token → Option Operator
  | .operator op => some op
  | _ => none

def Formula.skeleton (f : Formula) : List (Option Operator) := f.map Token.operator?

namespace Rpn

def Step.bare (s : Step) : Nat × Option Operation :=
  match s.instruction with
  | .push _ => (s.index, none)
  | .operate op => (s.index, some op)

def skeletonAlike : Likeness where
  index := Eq
  value _ _ := True
  written ws xs := ws.map Step.bare = xs.map Step.bare
  start := rfl
  push same _ h := by simp [Step.bare, same, h]
  operate _ same h := by simp [Step.bare, same, h]

theorem skeletonAlike_steps {ws xs : List Step} :
    skeletonAlike.Steps ws xs ↔ ws.map Step.bare = xs.map Step.bare := by
  simp only [Likeness.Steps, skeletonAlike, List.map_reverse, List.reverse_inj]

theorem skeletonAlike_ofToken {t u : Token} (same : t.operator? = u.operator?) :
    skeletonAlike.Lexemes (.ofToken t) (.ofToken u) := by
  cases t <;> cases u <;> simp only [Token.operator?, Option.some.injEq, reduceCtorEq] at same
  case operator.operator => exact same ▸ .operator _
  all_goals exact .operand trivial

theorem skeletonAlike_items {f g : Formula} (same : f.skeleton = g.skeleton) (n : Nat) :
    List.Forall₂ skeletonAlike.Items (f.mapIdx fun i t => ⟨n + i, .ofToken t⟩)
      (g.mapIdx fun i t => ⟨n + i, .ofToken t⟩) := by
  induction f generalizing g n with
  | nil =>
    have empty : g = [] := List.map_eq_nil_iff.mp same.symm
    subst empty
    exact .nil
  | cons t f ih =>
    obtain ⟨u, g, rfl, first, rest⟩ := List.map_eq_cons_iff.mp same.symm
    rw [List.mapIdx_cons, List.mapIdx_cons]
    have later := ih (g := g) rest.symm (n + 1)
    simp only [Nat.add_assoc, Nat.add_comm 1] at later
    exact .cons ⟨rfl, skeletonAlike_ofToken first.symm⟩ later

theorem ofItems_of_skeleton {f g : Formula} (same : f.skeleton = g.skeleton) :
    (ofItems (items f)).map (List.map Step.bare) =
      (ofItems (items g)).map (List.map Step.bare) := by
  have together := skeletonAlike_items same 0
  simp only [Nat.zero_add] at together
  have alike : skeletonAlike.Results skeletonAlike.Steps (ofItems (items f)) (ofItems (items g)) :=
    Likeness.ofItems_alike together
  generalize ofItems (items f) = first at alike ⊢
  generalize ofItems (items g) = second at alike ⊢
  cases alike with
  | ok related => exact congrArg Except.ok (skeletonAlike_steps.mp related)
  | error kind index =>
    cases index
    rfl

theorem exists_bare {f g : Formula} (same : f.skeleton = g.skeleton) {ws : List Step}
    (converted : ofItems (items f) = .ok ws) :
    ∃ xs, ofItems (items g) = .ok xs ∧ xs.map Step.bare = ws.map Step.bare := by
  have alike := ofItems_of_skeleton same
  rw [converted] at alike
  cases second : ofItems (items g) with
  | ok xs =>
    rw [second] at alike
    exact ⟨xs, rfl, (Except.ok.inj alike).symm⟩
  | error fault =>
    rw [second] at alike
    cases alike

theorem refused_of_skeleton {f g : Formula} (same : f.skeleton = g.skeleton)
    {fault : StructureFault} (refused : ofItems (items f) = .error fault) :
    ofItems (items g) = .error fault := by
  have alike := ofItems_of_skeleton same
  rw [refused] at alike
  cases second : ofItems (items g) with
  | ok xs =>
    rw [second] at alike
    cases alike
  | error other =>
    rw [second] at alike
    exact congrArg Except.error (Except.error.inj alike).symm

end Rpn

namespace Formula

theorem fault_of_skeleton {f g : Formula} (same : f.skeleton = g.skeleton)
    {fault : StructureFault} (failed : f.value = .error fault) : g.value = .error fault :=
  value_eq_error_iff.mpr (Rpn.refused_of_skeleton same (value_eq_error_iff.mp failed))

theorem exists_value_of_skeleton {f g : Formula} (same : f.skeleton = g.skeleton)
    (accepted : ∃ v, f.value = .ok v) : ∃ w, g.value = .ok w := by
  obtain ⟨v, found⟩ := accepted
  cases outcome : g.value with
  | ok w => exact ⟨w, rfl⟩
  | error fault => cases found.symm.trans (fault_of_skeleton same.symm outcome)

/-- Two formulas with the same operators in the same places are accepted together or refused
together, with the same fault. If they are accepted, they are computed by the same operations of the
same tags, in the same order; only the operands may differ. -/
theorem skeleton_decides {f g : Formula} (same : f.skeleton = g.skeleton) :
    ((∃ v, f.value = .ok v) ↔ ∃ w, g.value = .ok w) ∧
    (∀ fault, f.value = .error fault ↔ g.value = .error fault) ∧
    (∀ ws, Rpn.ofItems (Rpn.items f) = .ok ws →
      ∃ xs, Rpn.ofItems (Rpn.items g) = .ok xs ∧
        xs.map Rpn.Step.bare = ws.map Rpn.Step.bare) := by
  refine ⟨?_, ?_, ?_⟩
  · constructor
    · exact exists_value_of_skeleton same
    · exact exists_value_of_skeleton same.symm
  · intro fault
    constructor
    · exact fault_of_skeleton same
    · exact fault_of_skeleton same.symm
  · intro ws converted
    exact Rpn.exists_bare same converted

theorem skeleton_of_named_operator :
    let two : Token := .ofFloat 2
    let named : Token := .var "+" "+" .zero (some "-")
    let minus : Token := .operator (.arithmetic .subtract)
    skeleton [two, two] = skeleton [two, named] ∧
      value [two, named] = .error ⟨1, .unexpectedOperand⟩ ∧
      skeleton [two, minus, two] = skeleton [named, minus, two] ∧
      ∃ w, value [named, minus, two] = .ok w := by
  intro two named minus
  have refused : value [two, two] = .error ⟨1, .unexpectedOperand⟩ := rfl
  have accepted : ∃ v, value [two, minus, two] = .ok v := ⟨_, rfl⟩
  have row : skeleton [two, two] = skeleton [two, named] := rfl
  have difference : skeleton [two, minus, two] = skeleton [named, minus, two] := rfl
  exact ⟨row, ((skeleton_decides row).2.1 _).mp refused, difference,
    (skeleton_decides difference).1.mp accepted⟩

end Formula

end TagFormula
