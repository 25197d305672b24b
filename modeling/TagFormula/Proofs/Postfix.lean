import Mathlib.Data.List.Induction
import TagFormula.Proofs.Placement
import TagFormula.Proofs.Postorder

/-!
Rows of steps, however they came about. A step takes its operands off the stack and leaves one, so
whether every step finds enough of them can be counted without running anything. Where all do, the
stack holds the values of expressions whose steps, one after another, are the row; so a row has a
value exactly if it is empty or the steps of one expression.
-/
namespace TagFormula

open Rpn (Step Instruction)

namespace Rpn

def Instruction.arity : Instruction → Nat
  | .push _ => 0
  | .operate (.sign _) => 1
  | .operate (.arithmetic _) => 2

/-- How many operands there are after these steps: each leaves one for those it takes. -/
def operandsAfter (steps : List Step) : Nat :=
  steps.foldl (fun count s => count - s.instruction.arity + 1) 0

def Supplied (steps : List Step) : Prop :=
  ∀ before s after, steps = before ++ s :: after → s.instruction.arity ≤ operandsAfter before

def FirstShort (steps : List Step) (s : Step) : Prop :=
  ∃ before after, steps = before ++ s :: after ∧ Supplied before ∧
    operandsAfter before < s.instruction.arity

theorem operandsAfter_snoc (steps : List Step) (s : Step) :
    operandsAfter (steps ++ [s]) = operandsAfter steps - s.instruction.arity + 1 := by
  simp [operandsAfter]

theorem supplied_nil : Supplied [] := by
  intro before s after split
  cases before <;> cases split

theorem supplied_snoc_iff {steps : List Step} {s : Step} :
    Supplied (steps ++ [s]) ↔ Supplied steps ∧ s.instruction.arity ≤ operandsAfter steps := by
  constructor
  · intro supplied
    constructor
    · intro before t after split
      exact supplied before t (after ++ [s]) (by simp [split])
    · exact supplied steps s [] rfl
  · rintro ⟨first, last⟩ before t after split
    rcases List.eq_nil_or_concat after with rfl | ⟨rest, u, rfl⟩
    · obtain ⟨rfl, same⟩ := List.append_inj' split rfl
      cases same
      exact last
    · refine first before t rest ?_
      rw [List.concat_eq_append, ← List.cons_append, ← List.append_assoc] at split
      exact (List.append_inj' split rfl).1

theorem supplied_or_firstShort (steps : List Step) :
    Supplied steps ∨ ∃ s, FirstShort steps s := by
  induction steps using List.reverseRecOn with
  | nil => exact .inl supplied_nil
  | append_singleton steps s ih =>
    rcases ih with supplied | ⟨t, before, after, rfl, first, short⟩
    · by_cases enough : s.instruction.arity ≤ operandsAfter steps
      · exact .inl (supplied_snoc_iff.mpr ⟨supplied, enough⟩)
      · exact .inr ⟨s, steps, [], rfl, supplied, by omega⟩
    · exact .inr ⟨t, before, after ++ [s], by simp, first, short⟩

end Rpn

namespace Expression

/-! ## Expressions on a stack -/

/-- The steps that lead to a stack of expressions, the last of which comes first. -/
def stepsTo (stack : List Expression) : List Step := stack.reverse.flatMap steps

theorem steps_ne_nil (e : Expression) : e.steps ≠ [] := by
  cases e <;> simp [steps]

theorem stepsTo_eq_nil_iff {stack : List Expression} : stepsTo stack = [] ↔ stack = [] := by
  cases stack with
  | nil => simp [stepsTo]
  | cons e rest => simp [stepsTo, e.steps_ne_nil]

theorem stepsTo_assemble {stack after : List Expression} {s : Step}
    (assembled : assemble stack s = some after) : stepsTo after = stepsTo stack ++ [s] := by
  obtain ⟨i, v | sign | op⟩ := s
  · cases assembled
    simp [stepsTo, steps]
  · rcases stack with _ | ⟨a, rest⟩
    · cases assembled
    · cases assembled
      simp [stepsTo, steps]
  · rcases stack with _ | ⟨b, _ | ⟨a, rest⟩⟩
    · cases assembled
    · cases assembled
    · cases assembled
      simp [stepsTo, steps]

theorem assemble_cases (stack : List Expression) (s : Step) :
    (stack.length < s.instruction.arity ∧
      Step.run (stack.map value) s = .error ⟨s.index, .missingOperand⟩) ∨
    (s.instruction.arity ≤ stack.length ∧ ∃ after, assemble stack s = some after ∧
      after.length = stack.length - s.instruction.arity + 1 ∧
      Step.run (stack.map value) s = .ok (after.map value)) := by
  obtain ⟨i, v | sign | op⟩ := s
  · exact .inr ⟨Nat.zero_le _, _, rfl, rfl, rfl⟩
  · rcases stack with _ | ⟨a, rest⟩
    · exact .inl ⟨Nat.zero_lt_one, rfl⟩
    · exact .inr ⟨Nat.le_add_left 1 _, _, rfl, rfl, rfl⟩
  · rcases stack with _ | ⟨b, _ | ⟨a, rest⟩⟩
    · exact .inl ⟨Nat.zero_lt_two, rfl⟩
    · exact .inl ⟨Nat.one_lt_two, rfl⟩
    · exact .inr ⟨Nat.le_add_left 2 _, _, rfl, rfl, rfl⟩

/-- What a row of steps leaves: the values of expressions, all of whose steps these are. -/
structure Leaves (row : List Step) (stack : List Expression) : Prop where
  steps : stepsTo stack = row
  count : stack.length = Rpn.operandsAfter row
  run : row.foldlM Step.run [] = .ok (stack.map value)

theorem leaves_of_supplied {row : List Step} (supplied : Rpn.Supplied row) :
    ∃ stack, Leaves row stack := by
  induction row using List.reverseRecOn with
  | nil => exact ⟨[], rfl, rfl, rfl⟩
  | append_singleton row s ih =>
    obtain ⟨first, enough⟩ := Rpn.supplied_snoc_iff.mp supplied
    obtain ⟨stack, steps, count, run⟩ := ih first
    rcases assemble_cases stack s with ⟨short, _⟩ | ⟨_, after, assembled, length, next⟩
    · omega
    · refine ⟨after, ?_, ?_, ?_⟩
      · rw [stepsTo_assemble assembled, steps]
      · rw [Rpn.operandsAfter_snoc, length, count]
      · refine Rpn.foldlM_append_eq_ok_iff.mpr ⟨_, run, ?_⟩
        rw [List.foldlM_cons, next]
        rfl

end Expression

namespace Rpn

open Expression (Leaves leaves_of_supplied)

theorem read_of_firstShort {steps : List Step} {s : Step} (short : FirstShort steps s) :
    steps.foldlM Step.run [] = .error ⟨s.index, .missingOperand⟩ := by
  obtain ⟨before, after, rfl, supplied, fewer⟩ := short
  obtain ⟨stack, leaves⟩ := leaves_of_supplied supplied
  rcases Expression.assemble_cases stack s with ⟨_, stops⟩ | ⟨enough, _⟩
  · rw [List.foldlM_append, leaves.run]
    change (Step.run (stack.map Expression.value) s >>= _) = _
    rw [stops]
    rfl
  · have count := leaves.count
    omega

theorem run_of_firstShort {steps : List Step} {s : Step} (short : FirstShort steps s) :
    run steps = .error ⟨s.index, .missingOperand⟩ := by
  rw [run, read_of_firstShort short]

theorem eq_nil_of_read_nil {steps : List Step} (left : steps.foldlM Step.run [] = .ok []) :
    steps = [] := by
  rcases supplied_or_firstShort steps with supplied | ⟨s, short⟩
  · obtain ⟨stack, leaves⟩ := leaves_of_supplied supplied
    have none : stack.map Expression.value = [] := Except.ok.inj (leaves.run.symm.trans left)
    rw [← leaves.steps, Expression.stepsTo_eq_nil_iff]
    exact List.map_eq_nil_iff.mp none
  · cases left.symm.trans (read_of_firstShort short)

theorem run_of_supplied {steps : List Step} (supplied : Supplied steps) :
    (steps = [] ∧ run steps = .ok 0) ∨
    (∃ e : Expression, e.steps = steps ∧ run steps = .ok e.value) ∨
    ∃ last, steps.getLast? = some last ∧ (∀ e : Expression, e.steps ≠ steps) ∧
      run steps = .error ⟨last.index, .unexpectedOperand⟩ := by
  obtain ⟨stack, leaves⟩ := leaves_of_supplied supplied
  rcases stack with _ | ⟨e, _ | ⟨e', rest⟩⟩
  · have empty : steps = [] := leaves.steps.symm.trans (Expression.stepsTo_eq_nil_iff.mpr rfl)
    subst empty
    exact .inl ⟨rfl, rfl⟩
  · have whole : e.steps = steps := by simpa [Expression.stepsTo] using leaves.steps
    subst whole
    exact .inr (.inl ⟨e, rfl, e.run_eq_value⟩)
  · right
    right
    have nonempty : steps ≠ [] := by
      intro empty
      have nothing := leaves.steps.trans empty
      cases Expression.stepsTo_eq_nil_iff.mp nothing
    obtain ⟨last, found⟩ := Option.ne_none_iff_exists'.mp
      (mt List.getLast?_eq_none_iff.mp nonempty)
    refine ⟨last, found, ?_, ?_⟩
    · -- The steps of one expression would leave one value, not two.
      rintro other rfl
      have same := Except.ok.inj ((other.run_steps []).symm.trans leaves.run)
      cases (List.cons.inj same).2
    · simp [run, leaves.run, result, found]

theorem run_eq_ok_iff {steps : List Step} {v : Float} : run steps = .ok v ↔
    (steps = [] ∧ v = 0) ∨ ∃ e : Expression, e.steps = steps ∧ v = e.value := by
  constructor
  · intro found
    rcases supplied_or_firstShort steps with supplied | ⟨s, short⟩
    · rcases run_of_supplied supplied with ⟨empty, zero⟩ | ⟨e, whole, value⟩ | ⟨last, _, _, failed⟩
      · exact .inl ⟨empty, Except.ok.inj (found.symm.trans zero)⟩
      · exact .inr ⟨e, whole, Except.ok.inj (found.symm.trans value)⟩
      · cases found.symm.trans failed
    · cases found.symm.trans (run_of_firstShort short)
  · rintro (⟨rfl, rfl⟩ | ⟨e, rfl, rfl⟩)
    · rfl
    · exact e.run_eq_value

theorem run_eq_error_iff {steps : List Step} {fault : StructureFault} :
    run steps = .error fault ↔
      (∃ s, FirstShort steps s ∧ fault = ⟨s.index, .missingOperand⟩) ∨
      (Supplied steps ∧ (∀ e : Expression, e.steps ≠ steps) ∧
        ∃ last, steps.getLast? = some last ∧ fault = ⟨last.index, .unexpectedOperand⟩) := by
  constructor
  · intro failed
    rcases supplied_or_firstShort steps with supplied | ⟨s, short⟩
    · rcases run_of_supplied supplied with ⟨_, zero⟩ | ⟨e, _, value⟩ | ⟨last, found, none, stopped⟩
      · cases failed.symm.trans zero
      · cases failed.symm.trans value
      · exact .inr ⟨supplied, none, last, found, Except.error.inj (failed.symm.trans stopped)⟩
    · exact .inl ⟨s, short, Except.error.inj (failed.symm.trans (run_of_firstShort short))⟩
  · rintro (⟨s, short, rfl⟩ | ⟨supplied, none, last, found, rfl⟩)
    · exact run_of_firstShort short
    · rcases run_of_supplied supplied with ⟨rfl, _⟩ | ⟨e, whole, _⟩ | ⟨last', found', _, stopped⟩
      · cases found
      · exact (none e whole).elim
      · rw [stopped, Option.some.inj (found.symm.trans found')]

end Rpn

end TagFormula
