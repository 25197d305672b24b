import TagFormula.Evaluation
import TagFormula.Proofs.LiteralText
import TagFormula.Proofs.Postfix
import TagFormula.Proofs.Substitution

/-!
The text of the steps. Each step is one word: a sign has a name, an operation its symbol, and an
operand is written with all its places. No word has a space in it and no two instructions share one,
so the text is cut at its spaces into the words it was made of, and these are read back as the
instructions that were written.
-/
namespace TagFormula

namespace Rpn

def words (text : String) : List String := (text.split ' ').toList.map (·.copy)

/-- The instruction a word stands for: what is neither the name of a sign nor the symbol of an
operation has to be a number. -/
def Instruction.ofWord? (word : String) : Option Instruction :=
  if word = "neg" then some (.operate (.sign .negate))
  else if word = "pos" then some (.operate (.sign .keep))
  else match Operator.ofText? word with
    | some (.arithmetic op) => some (.operate (.arithmetic op))
    | _ => (Number.read? word).map .push

/-- Every operand of these steps is a finite number. -/
def FiniteOperands (steps : List Step) : Prop :=
  ∀ s ∈ steps, ∀ v, s.instruction = .push v → v.isFinite = true

/-! ## Words -/

theorem word_of_operation (op : Operation) :
    Instruction.ofWord? op.word = some (.operate op) ∧ ' ' ∉ op.word.toList := by
  rcases op with (_ | _) | (_ | _ | _ | _ | _) <;> decide

theorem read?_word_of_operation (op : Operation) : Number.read? op.word = none := by
  rcases op with (_ | _) | (_ | _ | _ | _ | _) <;> decide +kernel

theorem ofWord?_of_number {word : String} {v : Float} (read : Number.read? word = some v) :
    Instruction.ofWord? word = some (.push v) := by
  have apart (op : Operation) : word ≠ op.word := by
    rintro rfl
    cases read.symm.trans (read?_word_of_operation op)
  have noSymbol (op : Arithmetic) : Operator.ofText? word ≠ some (.arithmetic op) := by
    intro symbol
    have single := Operator.ofText?_eq_some_iff.mp symbol
    simp only [Operator.symbol] at single
    exact apart (.arithmetic op) single
  have noNegation : word ≠ "neg" := apart (.sign .negate)
  have noIdentity : word ≠ "pos" := apart (.sign .keep)
  rw [Instruction.ofWord?, if_neg noNegation, if_neg noIdentity]
  split
  · next op symbol => exact (noSymbol op symbol).elim
  · rw [read]
    rfl

theorem word_of_operand {v : Float} (finite : v.isFinite = true) :
    Instruction.ofWord? (Instruction.push v).word = some (.push v) ∧
      ' ' ∉ (Instruction.push v).word.toList := by
  have read : Number.read? (Instruction.push v).word = some v := Number.read?_write .plain finite
  refine ⟨ofWord?_of_number read, fun space => ?_⟩
  obtain ⟨d, literal, _⟩ := Number.exists_literal_write .plain finite
  have inked := Number.Literal.isBlank_of_literal literal ' ' space
  cases inked

theorem word_of_finite {steps : List Step} (finite : FiniteOperands steps) {s : Step}
    (member : s ∈ steps) :
    Instruction.ofWord? s.instruction.word = some s.instruction ∧
      ' ' ∉ s.instruction.word.toList := by
  cases instruction : s.instruction with
  | push v => exact word_of_operand (finite s member v instruction)
  | operate op => exact word_of_operation op

/-! ## The whole text -/

theorem words_text {steps : List Step} (finite : FiniteOperands steps) :
    words (text steps) = if steps = [] then [""] else steps.map fun s => s.instruction.word := by
  have spaceless : ∀ word ∈ steps.map (fun s => s.instruction.word), ' ' ∉ word.toList := by
    intro word member
    obtain ⟨s, inside, rfl⟩ := List.mem_map.mp member
    exact (word_of_finite finite inside).2
  have cut := String.toList_split_intercalate spaceless
  simp only [List.map_eq_nil_iff] at cut
  exact cut

theorem mapM_ofWord?_map_word {steps : List Step} (finite : FiniteOperands steps) :
    (steps.map fun s => s.instruction.word).mapM Instruction.ofWord? =
      some (steps.map Step.instruction) := by
  induction steps with
  | nil => rfl
  | cons s steps ih =>
    obtain ⟨first, rest⟩ := List.forall_mem_cons.mp finite
    have read := (word_of_finite finite List.mem_cons_self).1
    rw [List.map_cons, List.mapM_cons, read, ih rest]
    rfl

theorem mapM_ofWord?_words {steps : List Step} (finite : FiniteOperands steps) :
    (words (text steps)).mapM Instruction.ofWord? =
      if steps = [] then none else some (steps.map Step.instruction) := by
  rw [words_text finite]
  split
  · rfl
  · exact mapM_ofWord?_map_word finite

theorem text_injective {ws xs : List Step} (finite : FiniteOperands ws)
    (finite' : FiniteOperands xs) (same : text ws = text xs) :
    ws.map Step.instruction = xs.map Step.instruction := by
  have read := mapM_ofWord?_words finite
  rw [same, mapM_ofWord?_words finite'] at read
  split at read
  · next empty =>
    split at read
    · next empty' => rw [empty, empty']
    · cases read
  · split at read
    · cases read
    · exact (Option.some.inj read).symm

/-! ## The steps of a formula -/

theorem isFinite_of_mem_items {f : Formula} {i : Nat} {v : Float}
    (member : ⟨i, .operand v⟩ ∈ items f) : v.isFinite = true := by
  obtain ⟨j, inside, same⟩ := List.mem_mapIdx.mp member
  have lexeme := congrArg Item.lexeme same
  cases token : f[j] with
  | number n =>
    rw [token] at lexeme
    cases lexeme
    exact n.finite
  | var id name n category =>
    rw [token] at lexeme
    cases lexeme
    exact n.finite
  | operator op =>
    rw [token] at lexeme
    cases lexeme

theorem expression_of_converted {f : Formula} (nonempty : f ≠ []) {steps : List Step}
    (converted : ofItems (items f) = .ok steps) :
    ∃ e, Grammar.Parses .sum (items f) e ∧ steps = e.steps :=
  (Grammar.ofItems_eq_ok_iff fun none => nonempty (Formula.items_eq_nil_iff.mp none)).mp converted

theorem finiteOperands_of_converted {f : Formula} {steps : List Step}
    (converted : ofItems (items f) = .ok steps) : FiniteOperands steps := by
  intro s member v pushes
  by_cases empty : f = []
  · subst empty
    cases converted
    cases member
  · obtain ⟨e, parses, rfl⟩ := expression_of_converted empty converted
    have origin : s.origin = ⟨s.index, .operand v⟩ := by rw [Step.origin, pushes]
    have source := (Grammar.origins_are_items parses).subset (List.mem_map_of_mem member)
    rw [origin] at source
    exact isFinite_of_mem_items (List.mem_filter.mp source).1

/-! ## Running what was read -/

theorem read_of_instructions {ws xs : List Step}
    (same : ws.map Step.instruction = xs.map Step.instruction) {stack after : List Float}
    (runs : ws.foldlM Step.run stack = .ok after) : xs.foldlM Step.run stack = .ok after := by
  induction ws generalizing xs stack with
  | nil =>
    obtain rfl := List.map_eq_nil_iff.mp same.symm
    exact runs
  | cons s ws ih =>
    obtain ⟨t, xs, rfl, first, rest⟩ := List.map_eq_cons_iff.mp same.symm
    rw [← List.singleton_append, foldlM_append_eq_ok_iff] at runs ⊢
    obtain ⟨between, step, later⟩ := runs
    exact ⟨between, (runs_iff_of_instruction first.symm stack between).mp step,
      ih rest.symm later⟩

theorem result_eq_ok_iff {steps : List Step} {stack : List Float} {v : Float} :
    result steps stack = .ok v ↔ stack = [] ∧ v = 0 ∨ stack = [v] := by
  rcases stack with _ | ⟨a, _ | ⟨b, rest⟩⟩
  · simp [result, eq_comm]
  · simp [result]
  · simp [result]

theorem run_of_instructions {ws xs : List Step}
    (same : ws.map Step.instruction = xs.map Step.instruction) {v : Float}
    (runs : run ws = .ok v) : run xs = .ok v := by
  unfold run at runs ⊢
  cases left : ws.foldlM Step.run [] with
  | error fault =>
    rw [left] at runs
    cases runs
  | ok stack =>
    rw [left] at runs
    rw [read_of_instructions same left]
    exact result_eq_ok_iff.mpr (result_eq_ok_iff.mp runs)

end Rpn

namespace Formula

open Rpn (Step)

theorem converted_of_trace {f : Formula} {v : Float} {t : Trace}
    (accepted : f.trace = .ok (v, t)) :
    ∃ steps, Rpn.ofItems (Rpn.items f) = .ok steps ∧ Rpn.run steps = .ok v ∧
      t.steps = Rpn.text steps := by
  unfold trace at accepted
  split at accepted
  · next empty =>
    obtain rfl := List.isEmpty_iff.mp empty
    cases accepted
    exact ⟨[], rfl, rfl, rfl⟩
  · split at accepted
    · cases accepted
    · next steps converted =>
      obtain ⟨w, runs⟩ := run_of_converted converted
      rw [runs] at accepted
      cases accepted
      exact ⟨steps, converted, runs, rfl⟩

/-- The text of the steps of a formula that has a value, cut at its spaces, has one word for each
step, and the words are read back as the instructions of the steps, the very same operands included.
Any steps with these instructions come to the value that is shown. A formula that is computed by
other instructions has another text. -/
theorem trace_reads_back {f : Formula} {v : Float} {t : Trace} (nonempty : f ≠ [])
    (accepted : f.trace = .ok (v, t)) :
    ∃ steps, Rpn.ofItems (Rpn.items f) = .ok steps ∧
      (Rpn.words t.steps).length = steps.length ∧
      (Rpn.words t.steps).mapM Rpn.Instruction.ofWord? = some (steps.map Step.instruction) ∧
      (∀ ws : List Step, ws.map Step.instruction = steps.map Step.instruction →
        Rpn.run ws = .ok v) ∧
      ∀ (g : Formula) (xs : List Step) (w : Float) (u : Trace),
        Rpn.ofItems (Rpn.items g) = .ok xs → g.trace = .ok (w, u) →
        xs.map Step.instruction ≠ steps.map Step.instruction → u.steps ≠ t.steps := by
  obtain ⟨steps, converted, runs, text⟩ := converted_of_trace accepted
  have finite := Rpn.finiteOperands_of_converted converted
  have full : steps ≠ [] := by
    obtain ⟨e, _, rfl⟩ := Rpn.expression_of_converted nonempty converted
    exact e.steps_ne_nil
  refine ⟨steps, converted, ?_, ?_, ?_, ?_⟩
  · rw [text, Rpn.words_text finite, if_neg full, List.length_map]
  · rw [text, Rpn.mapM_ofWord?_words finite, if_neg full]
  · intro ws same
    exact Rpn.run_of_instructions same.symm runs
  · intro g xs w u other found differ same
    obtain ⟨ys, again, _, shown⟩ := converted_of_trace found
    cases other.symm.trans again
    rw [shown, text] at same
    exact differ (Rpn.text_injective (Rpn.finiteOperands_of_converted other) finite same)

theorem words_of_minuses :
    let minus : Token := .operator (.arithmetic .subtract)
    let f : Formula := [minus, .ofFloat 2, minus, .ofFloat (-2)]
    f ≠ [] ∧ f.trace = .ok (0, ⟨"- 2 - -2", "2 neg -2 -"⟩) ∧
      (Rpn.words "2 neg -2 -").length = 4 ∧
      (Rpn.words "2 neg -2 -").mapM Rpn.Instruction.ofWord? =
        some [.push 2, .operate (.sign .negate), .push (-2), .operate (.arithmetic .subtract)] := by
  intro minus f
  have nonempty : f ≠ [] := List.cons_ne_nil _ _
  have accepted : f.trace = .ok (0, ⟨"- 2 - -2", "2 neg -2 -"⟩) := by decide +kernel
  obtain ⟨steps, converted, count, read, _⟩ := trace_reads_back nonempty accepted
  cases converted
  exact ⟨nonempty, accepted, count, read⟩

end Formula

end TagFormula
