import Mathlib.Data.List.TakeWhile
import TagFormula.Proofs.EntrySteps
import TagFormula.Storage.Memory

/-!
A number in the entry field. Before an operator it always becomes a number. On a commit the
candidates come first, and a name may well contain the digits that were typed; the number is
what is left when there is no candidate. Nothing but a literal ever becomes a number.
-/
namespace TagFormula

theorem Text.trim_of_isBlankText {text : String} (blank : isBlankText text = true) :
    trim text = "" := by
  have dropped : text.toList.dropWhile isBlank = [] :=
    List.dropWhile_eq_nil_iff.mpr (List.all_eq_true.mp blank)
  rw [trim, trimmed, dropped]
  rfl

theorem Number.read?_trim_of_blank {text : String} (blank : Text.isBlankText text = true) :
    read? (Text.trim text) = none := by
  rw [Text.trim_of_isBlankText blank]
  decide

theorem Suggestion.insert_ne_number (s : Suggestion) (ids : IdSupply) (n : Amount) :
    (s.insert ids).1 ≠ .number n := by
  unfold insert
  cases s.operator? with
  | some op => intro same; cases same
  | none => intro same; cases same

namespace Editor

variable {σ : Type}

theorem tokenFor_of_literal {lookup : Option Lookup} {ids : IdSupply} {text : String} {v : Float}
    (literal : Number.read? (Text.trim text) = some v) :
    tokenFor lookup ids text = .ofFloat v := by
  simp only [tokenFor, literal]

theorem tokenFor_eq_number {lookup : Option Lookup} {ids : IdSupply} {text : String} {n : Amount}
    (number : tokenFor lookup ids text = .number n) :
    ∃ v, Number.read? (Text.trim text) = some v ∧ n = Amount.ofFloat v := by
  cases literal : Number.read? (Text.trim text) with
  | some v =>
    rw [tokenFor_of_literal literal] at number
    cases number
    exact ⟨v, rfl, rfl⟩
  | none =>
    simp only [tokenFor, literal] at number
    split at number
    · cases number
    · split at number
      · exact (Suggestion.insert_ne_number _ _ _ number).elim
      · cases number

theorem not_blank_of_literal {text : String} {v : Float}
    (literal : Number.read? (Text.trim text) = some v) : ¬ Text.isBlankText text = true := by
  intro blank
  rw [Number.read?_trim_of_blank blank] at literal
  cases literal

theorem ended_of_literal {e : Editor σ} {v : Float}
    (literal : Number.read? (Text.trim e.session.entry) = some v) : e.ended = [.ofFloat v] := by
  rw [ended, if_neg (not_blank_of_literal literal), tokenFor_of_literal literal]

/-- The tag of the first candidate, or this one if there is none. -/
def firstOr (e : Editor σ) (t : Token) : Token :=
  match e.candidates with
  | s :: _ => (s.insert e.ids).1
  | [] => t

theorem committed_of_full {e : Editor σ} (full : ¬ Text.isBlankText e.session.entry = true) :
    e.committed = [e.firstOr (tokenFor e.lookup e.ids e.session.entry)] := by
  rw [committed, if_neg full, firstOr]
  cases e.candidates with
  | nil => rfl
  | cons s rest => rfl

theorem committed_of_literal {e : Editor σ} {v : Float}
    (literal : Number.read? (Text.trim e.session.entry) = some v) :
    e.committed = [e.firstOr (.ofFloat v)] := by
  rw [committed_of_full (not_blank_of_literal literal), tokenFor_of_literal literal]

theorem ended_eq_number {e : Editor σ} {n : Amount} (number : e.ended = [.number n]) :
    ∃ v, Number.read? (Text.trim e.session.entry) = some v ∧ n = Amount.ofFloat v := by
  unfold ended at number
  split at number
  · cases number
  · exact tokenFor_eq_number (List.cons.inj number).1

theorem committed_eq_number {e : Editor σ} {n : Amount} (number : e.committed = [.number n]) :
    ∃ v, Number.read? (Text.trim e.session.entry) = some v ∧ n = Amount.ofFloat v ∧
      e.candidates = [] := by
  unfold committed at number
  split at number
  · cases number
  · cases candidates : e.candidates with
    | nil =>
      simp only [candidates] at number
      obtain ⟨v, literal, value⟩ := tokenFor_eq_number (List.cons.inj number).1
      exact ⟨v, literal, value, rfl⟩
    | cons s rest =>
      simp only [candidates] at number
      exact (Suggestion.insert_ne_number _ _ _ (List.cons.inj number).1).elim

theorem formula_apply_operator [Store σ] (e : Editor σ) (op : Operator) :
    (e.apply (.operator op.symbol)).2.formula = e.formula ++ e.ended ++ [.operator op] := by
  let noted := e.note (.action (.operator op.symbol))
  have added := (noted.appends_typeOperator op).formula
  have carried : noted.carryOut (.operator op.symbol) = deliver [] (noted.typeOperator op) := by
    simp only [carryOut, Operator.ofChar?_symbol]
  rw [apply, carried, List.append_assoc]
  exact added

theorem formula_apply_commit [Store σ] (e : Editor σ) {a : Action}
    (h : a = .commit ∨ a = .evaluate) : (e.apply a).2.formula = e.formula ++ e.committed := by
  rcases h with rfl | rfl
  · exact ((e.note (.action .commit)).appends_commit).formula
  · exact ((e.note (.action .evaluate)).appends_evaluate).formula

/-- What a literal in the entry field becomes, and that only a literal becomes a number. -/
theorem literal_entry_becomes [Store σ] (e : Editor σ) :
    (∀ v, Number.read? (Text.trim e.session.entry) = some v →
      (∀ op : Operator, (e.apply (.operator op.symbol)).2.formula =
        e.formula ++ [.ofFloat v, .operator op]) ∧
      (∀ a, a = .commit ∨ a = .evaluate →
        (e.apply a).2.formula = e.formula ++ [e.firstOr (.ofFloat v)])) ∧
    (∀ (op : Operator) n,
      (e.apply (.operator op.symbol)).2.formula = e.formula ++ [.number n, .operator op] →
      ∃ v, Number.read? (Text.trim e.session.entry) = some v ∧ n = Amount.ofFloat v) ∧
    (∀ a n, a = .commit ∨ a = .evaluate →
      (e.apply a).2.formula = e.formula ++ [.number n] →
      ∃ v, Number.read? (Text.trim e.session.entry) = some v ∧ n = Amount.ofFloat v ∧
        e.candidates = []) := by
  refine ⟨?_, ?_, ?_⟩
  · intro v literal
    constructor
    · intro op
      rw [formula_apply_operator, ended_of_literal literal, List.append_assoc]
      rfl
    · intro a committing
      rw [formula_apply_commit e committing, committed_of_literal literal]
  · intro op n number
    rw [formula_apply_operator, List.append_assoc] at number
    have both : e.ended ++ [.operator op] = [.number n] ++ [.operator op] :=
      List.append_cancel_left number
    exact ended_eq_number (List.append_cancel_right both)
  · intro a n committing number
    rw [formula_apply_commit e committing] at number
    exact committed_eq_number (List.append_cancel_left number)

def quarterTyped : Editor Memory :=
  ((Editor.new ⟨0, 0⟩ (some (.new (.catalogue [⟨"q", "Q1", "finance", 250⟩]) 800)) none).run
    [.act (.type "1"), .drain, .harvest]).2

/-- The entry is a literal, but a commit makes the candidate of it. -/
theorem candidate_before_literal :
    Number.read? (Text.trim quarterTyped.session.entry) = some 1 ∧
      ∀ a, a = .commit ∨ a = .evaluate →
        (quarterTyped.apply a).2.formula = [.var "0-0" "Q1" (.ofFloat 250) (some "finance")] ∧
          (quarterTyped.apply a).2.formula ≠ quarterTyped.formula ++ [.ofFloat 1] := by
  refine ⟨by decide +kernel, ?_⟩
  rintro a (rfl | rfl)
  · exact ⟨by decide +kernel, by decide +kernel⟩
  · exact ⟨by decide +kernel, by decide +kernel⟩

theorem one_with_and_without_candidate :
    let bare := ((Editor.new ⟨0, 0⟩ none (none : Option Memory)).run [.act (.type "1")]).2
    Number.read? (Text.trim quarterTyped.session.entry) = some 1 ∧
      (quarterTyped.apply (.operator '+')).2.formula =
        quarterTyped.formula ++ [.ofFloat 1, .operator (.arithmetic .add)] ∧
      (quarterTyped.apply .commit).2.formula =
        quarterTyped.formula ++ [quarterTyped.firstOr (.ofFloat 1)] ∧
      (bare.apply .commit).2.formula = bare.formula ++ [.ofFloat 1] ∧
      ∃ v, Number.read? (Text.trim bare.session.entry) = some v ∧
        Amount.ofFloat 1 = Amount.ofFloat v ∧ bare.candidates = [] := by
  intro bare
  have literal : Number.read? (Text.trim quarterTyped.session.entry) = some 1 := by
    decide +kernel
  have made : (bare.apply .commit).2.formula = bare.formula ++ [.ofFloat 1] := by decide +kernel
  obtain ⟨becomes, _, _⟩ := literal_entry_becomes quarterTyped
  obtain ⟨ended, committed⟩ := becomes 1 literal
  obtain ⟨_, _, only⟩ := literal_entry_becomes bare
  exact ⟨literal, ended (.arithmetic .add), committed .commit (.inl rfl), made,
    only .commit (Amount.ofFloat 1) (.inl rfl) made⟩

end Editor

end TagFormula
