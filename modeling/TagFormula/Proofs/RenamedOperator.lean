import TagFormula.Proofs.Since
import TagFormula.Proofs.UntouchedRename

/-!
What is under rename. A rename starts on a tag that is no operator, but it stays open when another
tag is put in the place of its own, and that one may be an operator. Ending the rename then turns
the operator into a number or a variable.
-/
namespace TagFormula.Editor

variable {σ : Type}

def RenamesOperator (e : Editor σ) : Prop :=
  ∃ i op, e.session.renameAt = some i ∧ e.formula[i]? = some (.operator op)

/-- The event puts an operator in the place of the tag under rename. -/
def PutsOperator (e : Editor σ) (x : Event) : Prop :=
  ∃ i op, e.session.renameAt = some i ∧
    (x = .replaceAt i (.operator op) ∨ ∃ s, x = .act (.replaceWith i s) ∧ s.operator? = some op)

/-- The event removes or replaces the tag under rename, or the rename is over with it. -/
def LeavesRename [Store σ] (e : Editor σ) (x : Event) : Prop :=
  x = .act .cancelRename ∨ ∃ i, e.session.renameAt = some i ∧ (e.targets x i ∨ e.finishes x i)

theorem insertion_of_operator {e : Editor σ} {s : Suggestion} {op : Operator}
    (stands : s.operator? = some op) : (e.insertion s).1 = .operator op := by
  simp only [insertion, Suggestion.insert, stands]

theorem operator_of_insertion {e : Editor σ} {s : Suggestion} {op : Operator}
    (inserted : (e.insertion s).1 = .operator op) : s.operator? = some op := by
  unfold insertion Suggestion.insert at inserted
  cases stands : s.operator? with
  | some other =>
    rw [stands] at inserted
    exact congrArg some (Token.operator.inj inserted)
  | none =>
    rw [stands] at inserted
    cases inserted

theorem renamesOperator_of_puts [Store σ] {e : Editor σ} (h : e.InRange) {x : Event}
    (puts : e.PutsOperator x) : (e.perform x).2.RenamesOperator := by
  obtain ⟨formula, _, renameAt⟩ := does_perform h x
  obtain ⟨i, op, underway, replaced⟩ := puts
  have inside := h.renameAt i underway
  have edits : e.edits x = [.replace i (.operator op)] := by
    rcases replaced with rfl | ⟨s, rfl, stands⟩
    · simp only [edits, if_pos inside]
    · simp only [edits, actionEdits, if_pos inside, insertion_of_operator stands]
  have goes : e.renames x = id := by
    rcases replaced with rfl | ⟨s, rfl, _⟩ <;> rfl
  rw [edits] at formula renameAt
  rw [goes, underway] at renameAt
  refine ⟨i, op, renameAt, ?_⟩
  rw [formula]
  exact List.getElem?_set_self inside

/-! ## Where the rename is -/

theorem followed_of_renames {e : Editor σ} {x : Event} {r : Option Nat} {k : Nat}
    (unstarted : ¬ e.StartsRename x) (h : e.renames x r = some k) : r = some k := by
  rcases renames_eq_some h with followed | ⟨rfl, inside⟩
  · exact followed
  · have found := List.getElem?_eq_getElem inside
    simpa only [renames, found, isOperator_of_unstarted unstarted found, if_true] using h

theorem renames_of_unfinished [Store σ] {e : Editor σ} {x : Event} {i k : Nat}
    (unstarted : ¬ e.StartsRename x) (underway : e.session.renameAt = some i)
    (uncancelled : x ≠ .act .cancelRename) (unfinished : ¬ e.finishes x i)
    (followed : Edit.followAll (e.edits x) (some i) = some k) :
    e.renames x (some k) = some k := by
  cases x with
  | act a =>
    cases a with
    | select j =>
      rw [Edit.followAll_of_inPlace _ (e.inPlace_select j)] at followed
      cases followed
      refine if_neg ?_
      rintro ⟨inside, apart⟩
      exact unfinished ⟨inside, underway, fun same => apart (congrArg some same)⟩
    | startRename j =>
      cases found : e.formula[j]? with
      | none => simp only [renames, found]
      | some t => simp only [renames, found, isOperator_of_unstarted unstarted found, if_true]
    | finishRename => exact (unfinished underway).elim
    | clickOutside => exact (unfinished underway).elim
    | cancelRename => exact (uncancelled rfl).elim
    | _ => rfl
  | _ => rfl

theorem renames_of_finishes {e : Editor σ} {x : Event} {i : Nat}
    (unstarted : ¬ e.StartsRename x) (ends : e.finishes x i) : e.renames x (some i) = none := by
  obtain ⟨_, rfl | rfl | ⟨j, rfl | rfl⟩⟩ := finishes_cases ends
  · rfl
  · rfl
  · obtain ⟨inside, _, apart⟩ := ends
    exact if_pos ⟨inside, fun same => apart (Option.some.inj same)⟩
  · obtain ⟨⟨t, found, named⟩, _⟩ := ends
    exact (unstarted ⟨j, t, rfl, found, named⟩).elim

/-! ## What is under it -/

theorem puts_of_targets [Store σ] {e : Editor σ} {x : Event} {i k : Nat} {op : Operator}
    (underway : e.session.renameAt = some i) (inside : i < e.formula.length)
    (targeted : e.targets x i) (followed : Edit.followAll (e.edits x) (some i) = some k)
    (operator : (Edit.applyAll (e.edits x) e.formula)[k]? = some (.operator op)) :
    e.PutsOperator x := by
  have removed : ∀ j, Edit.followAll [.remove j] (some j) = none := shiftAfterRemoval_self
  have replaced : ∀ t, (Edit.applyAll [.replace i t] e.formula)[i]? = some t :=
    fun _ => List.getElem?_set_self inside
  cases x with
  | act a =>
    cases a with
    | replaceWith j s =>
      obtain rfl : i = j := targeted
      simp only [edits, actionEdits, if_pos inside] at followed operator
      cases followed
      rw [replaced] at operator
      exact ⟨i, op, underway, .inr ⟨s, rfl, operator_of_insertion (Option.some.inj operator)⟩⟩
    | remove j =>
      obtain rfl : i = j := targeted
      simp only [edits, actionEdits, if_pos inside] at followed
      cases (removed i).symm.trans followed
    | erase =>
      obtain ⟨empty, last⟩ := targeted
      have place : e.formula.length - 1 = i := by omega
      have full : e.formula.isEmpty = false := List.isEmpty_eq_false_iff_exists_mem.mpr
        ⟨_, List.getElem_mem inside⟩
      simp only [edits, actionEdits, empty, full, place] at followed
      cases (removed i).symm.trans followed
    | clear => cases followed
    | _ => exact targeted.elim
  | removeAt j =>
    obtain rfl : i = j := targeted
    simp only [edits, if_pos inside] at followed
    cases (removed i).symm.trans followed
  | replaceAt j t =>
    obtain rfl : i = j := targeted
    simp only [edits, if_pos inside] at followed operator
    cases followed
    rw [replaced] at operator
    cases operator
    exact ⟨i, op, underway, .inl rfl⟩
  | load =>
    obtain ⟨f, stored⟩ := Option.ne_none_iff_exists'.mp targeted
    simp only [edits, stored] at followed
    cases followed
  | _ => exact targeted.elim

theorem not_renamesOperator_of_starts [Store σ] {e : Editor σ} (h : e.InRange) {x : Event}
    (starts : e.StartsRename x) : ¬ (e.perform x).2.RenamesOperator := by
  obtain ⟨i, t, rfl, found, named⟩ := starts
  obtain ⟨kept, started, _⟩ := apply_startRename h found named
  rintro ⟨j, op, underway, operator⟩
  obtain rfl := Option.some.inj (started.symm.trans underway)
  cases kept.symm.trans operator
  cases named

theorem not_puts_of_starts {e : Editor σ} {x : Event} (starts : e.StartsRename x) :
    ¬ e.PutsOperator x := by
  obtain ⟨i, t, rfl, _⟩ := starts
  rintro ⟨j, op, _, same | ⟨s, same, _⟩⟩
  · cases same
  · cases same

theorem leaves_of_starts [Store σ] {e : Editor σ} {x : Event} (starts : e.StartsRename x)
    (before : e.RenamesOperator) : e.LeavesRename x := by
  obtain ⟨i, t, rfl, found, named⟩ := starts
  obtain ⟨j, op, underway, operator⟩ := before
  refine .inr ⟨j, underway, .inr ⟨⟨t, found, named⟩, underway, ?_⟩⟩
  rintro rfl
  cases found.symm.trans operator
  cases named

theorem renamesOperator_of_stays [Store σ] {e : Editor σ} (h : e.InRange) {x : Event}
    (unstarted : ¬ e.StartsRename x) (before : e.RenamesOperator) (stays : ¬ e.LeavesRename x) :
    (e.perform x).2.RenamesOperator := by
  obtain ⟨formula, _, renameAt⟩ := does_perform h x
  obtain ⟨i, op, underway, operator⟩ := before
  have uncancelled : x ≠ .act .cancelRename := fun same => stays (.inl same)
  have untargeted : ¬ e.targets x i := fun targeted => stays (.inr ⟨i, underway, .inl targeted⟩)
  have unfinished : ¬ e.finishes x i := fun ends => stays (.inr ⟨i, underway, .inr ends⟩)
  obtain ⟨k, followed, kept⟩ := keeps_edits (h.renameAt i underway) untargeted unfinished
  have still := renames_of_unfinished unstarted underway uncancelled unfinished followed
  refine ⟨k, op, ?_, ?_⟩
  · rw [renameAt, underway, followed, still]
  · rw [formula, kept, operator]

theorem puts_or_stays [Store σ] {e : Editor σ} (h : e.InRange) {x : Event}
    (unstarted : ¬ e.StartsRename x) (after : (e.perform x).2.RenamesOperator) :
    e.PutsOperator x ∨ e.RenamesOperator ∧ ¬ e.LeavesRename x := by
  obtain ⟨formula, _, renameAt⟩ := does_perform h x
  obtain ⟨k, op, named, operator⟩ := after
  rw [renameAt] at named
  rw [formula] at operator
  have followed := followed_of_renames unstarted named
  rw [followed] at named
  cases underway : e.session.renameAt with
  | none =>
    rw [underway, Edit.followAll_none] at followed
    cases followed
  | some i =>
    rw [underway] at followed
    have inside := h.renameAt i underway
    have unfinished : ¬ e.finishes x i := by
      intro ends
      rw [Edit.followAll_of_inPlace _ (inPlace_of_finishes ends)] at followed
      cases followed
      cases (renames_of_finishes unstarted ends).symm.trans named
    by_cases targeted : e.targets x i
    · exact .inl (puts_of_targets underway inside targeted followed operator)
    · obtain ⟨j, moved, kept⟩ := keeps_edits inside targeted unfinished
      obtain rfl := Option.some.inj (moved.symm.trans followed)
      refine .inr ⟨⟨i, op, underway, kept.symm.trans operator⟩, ?_⟩
      rintro (rfl | ⟨j, again, ends⟩)
      · cases named
      · obtain rfl := Option.some.inj (underway.symm.trans again)
        exact ends.elim targeted unfinished

theorem renamesOperator_perform_iff [Store σ] {e : Editor σ} (h : e.InRange) (x : Event) :
    (e.perform x).2.RenamesOperator ↔
      e.PutsOperator x ∨ e.RenamesOperator ∧ ¬ e.LeavesRename x := by
  by_cases starts : e.StartsRename x
  · refine iff_of_false (not_renamesOperator_of_starts h starts) ?_
    rintro (puts | ⟨before, stays⟩)
    · exact not_puts_of_starts starts puts
    · exact stays (leaves_of_starts starts before)
  · constructor
    · exact puts_or_stays h starts
    · rintro (puts | ⟨before, stays⟩)
      · exact renamesOperator_of_puts h puts
      · exact renamesOperator_of_stays h starts before stays

/-! ## Runs -/

theorem isOperator_renamedToken (ids : IdSupply) (old : Token) (name : String) :
    (renamedToken ids old name).isOperator = false := by
  unfold renamedToken
  cases Number.read? name with
  | some v => rfl
  | none => cases old <;> rfl

theorem formula_of_finishes [Store σ] {e : Editor σ} {x : Event} {k : Nat} {t : Token}
    (ends : e.finishes x k) (found : e.formula[k]? = some t) :
    (e.perform x).2.formula =
      Edit.applyAll (nameEdits e.ids k t (Text.trim e.session.renameText)) e.formula := by
  have underway := (finishes_cases ends).1
  rw [(e.stores_perform x).formula, edits_of_finishes ends, renameEdits]
  simp only [underway, found]

/-- The tag under rename is an operator exactly since one was put in its place. As long as it is
none, ending the rename keeps every operator of the formula; if it is one, any other name turns
it into a number or a variable. -/
theorem operator_under_rename_since_put [Store σ] (ids : IdSupply) (lookup : Option Lookup)
    (store : Option σ) (xs : List Event) :
    let start := Editor.new ids lookup store
    let e := (start.run xs).2
    (∀ i, e.session.renameAt = some i → ∃ t : Token, e.formula[i]? = some t ∧
      (t.isOperator = true ↔ start.Since PutsOperator LeavesRename xs)) ∧
    (∀ x k (t : Token), e.finishes x k → e.formula[k]? = some t →
      let name := Text.trim e.session.renameText
      (t.isOperator = false → ∀ (j : Nat) op, e.formula[j]? = some (Token.operator op) →
        (e.perform x).2.formula[j]? = some (Token.operator op)) ∧
      (t.isOperator = true → name ≠ "" → name ≠ t.label →
        ∃ u : Token, u.isOperator = false ∧ (e.perform x).2.formula = e.formula.set k u)) := by
  intro start e
  have new : start.InRange := inRange_new ids lookup store
  have inRange : e.InRange := inRange_run new xs
  have nothing : ¬ start.RenamesOperator := by
    rintro ⟨i, op, underway, _⟩
    cases underway
  have since : e.RenamesOperator ↔ start.Since PutsOperator LeavesRename xs :=
    run_iff_since (fun e h x => renamesOperator_perform_iff h x) new nothing xs
  constructor
  · intro i underway
    obtain ⟨t, found⟩ : ∃ t, e.formula[i]? = some t :=
      ⟨_, List.getElem?_eq_getElem (inRange.renameAt i underway)⟩
    refine ⟨t, found, Iff.trans ?_ since⟩
    constructor
    · intro operator
      cases t with
      | operator op => exact ⟨i, op, underway, found⟩
      | number v => cases operator
      | var id name v category => cases operator
    · rintro ⟨j, op, again, operator⟩
      obtain rfl := Option.some.inj (underway.symm.trans again)
      cases found.symm.trans operator
      rfl
  · intro x k t ends found name
    refine ⟨?_, ?_⟩
    · intro named j op operator
      have apart : j ≠ k := by
        rintro rfl
        cases found.symm.trans operator
        cases named
      rw [(e.stores_perform x).formula, others_of_finishes ends apart]
      exact operator
    · intro _ full other
      refine ⟨renamedToken e.ids t name, isOperator_renamedToken _ _ _, ?_⟩
      have one : nameEdits e.ids k t name = [.replace k (renamedToken e.ids t name)] := by
        rw [nameEdits, if_neg (by simpa using ⟨full, other⟩)]
      rw [formula_of_finishes ends found, one]
      rfl

/-- A plus is put in the place of a variable under rename; the end of the rename makes a variable
of it. -/
theorem rename_outlives_variable :
    let e := ((Editor.new ⟨0, 0⟩ none (none : Option Memory)).run
      [.append (.var "v1" "x" (.ofFloat 5) none), .act (.startRename 0),
        .act (.replaceWith 0 ⟨"o", "+", "operator", 0⟩)]).2
    e.session.renameAt = some 0 ∧ e.formula = [.operator (.arithmetic .add)] ∧
      (e.apply .finishRename).2.formula = [.var "0-0" "x" .zero none] := by
  decide +kernel

def withoutStore : Editor Memory := Editor.new ⟨0, 0⟩ none none

def plusPut : List Event :=
  [.append (.var "v1" "x" (.ofFloat 5) none), .act (.startRename 0),
    .act (.replaceWith 0 ⟨"o", "+", "operator", 0⟩)]

def plusBeside : List Event :=
  [.append (.var "v1" "x" (.ofFloat 5) none), .append (.operator (.arithmetic .add)),
    .act (.startRename 0)]

/-- The plus was put under the rename; another one, after the variable, outlives the rename. -/
theorem plus_under_and_beside_rename :
    (withoutStore.run plusPut).2.session.renameAt = some 0 ∧
      withoutStore.Since PutsOperator LeavesRename plusPut ∧
      (∃ u : Token, u.isOperator = false ∧
        ((withoutStore.run plusPut).2.perform (.act .finishRename)).2.formula =
          (withoutStore.run plusPut).2.formula.set 0 u) ∧
      ((withoutStore.run plusBeside).2.perform (.act .finishRename)).2.formula[1]? =
        some (.operator (.arithmetic .add)) := by
  have underway : (withoutStore.run plusPut).2.session.renameAt = some 0 := by decide +kernel
  have plus : (withoutStore.run plusPut).2.formula[0]? = some (.operator (.arithmetic .add)) := by
    decide +kernel
  obtain ⟨under, ends⟩ :=
    operator_under_rename_since_put ⟨0, 0⟩ none (none : Option Memory) plusPut
  obtain ⟨t, found, since⟩ := under 0 underway
  obtain rfl := Option.some.inj (found.symm.trans plus)
  obtain ⟨_, lost⟩ := ends (.act .finishRename) 0 _ underway plus
  have beside : (withoutStore.run plusBeside).2.session.renameAt = some 0 := by decide +kernel
  have named : (withoutStore.run plusBeside).2.formula[0]? =
      some (.var "v1" "x" (.ofFloat 5) none) := by decide +kernel
  have second : (withoutStore.run plusBeside).2.formula[1]? =
      some (.operator (.arithmetic .add)) := by decide +kernel
  obtain ⟨_, kept⟩ :=
    operator_under_rename_since_put ⟨0, 0⟩ none (none : Option Memory) plusBeside
  obtain ⟨keeps, _⟩ := kept (.act .finishRename) 0 _ beside named
  refine ⟨underway, since.mp rfl, ?_, ?_⟩
  · exact lost rfl (by decide +kernel) (by decide +kernel)
  · exact keeps rfl 1 _ second

end TagFormula.Editor
