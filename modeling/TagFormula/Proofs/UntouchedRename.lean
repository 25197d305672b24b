import TagFormula.Proofs.Identity
import TagFormula.Proofs.LiteralText
import TagFormula.Proofs.Saving
import TagFormula.Storage.Memory

/-!
A rename that nobody has typed into. Its text is the label of the tag, and on its way out the
text loses the blanks at its ends while the label keeps them. A tag whose label has none there
stays as it was and nothing is saved; a variable whose name has some gets another name, and its
value and category are gone.
-/
namespace TagFormula

/-! ## Labels -/

theorem Token.trim_label_number (n : Amount) :
    Text.trim (Token.number n).label = (Token.number n).label := by
  obtain ⟨d, literal, _⟩ := Number.exists_literal_write .plain n.finite
  exact Text.trim_eq_self (Number.Literal.isBlank_of_literal literal)

namespace Editor

variable {σ : Type}

theorem renamedToken_ne {ids : IdSupply} {t : Token} (named : t.isOperator = false)
    (other : Text.trim t.label ≠ t.label) : renamedToken ids t (Text.trim t.label) ≠ t := by
  cases t with
  | number n => exact (other (Token.trim_label_number n)).elim
  | operator op => cases named
  | var id name v category =>
    unfold renamedToken
    cases Number.read? (Text.trim (Token.var id name v category).label) with
    | some x =>
      intro same
      cases same
    | none =>
      intro same
      exact other (Token.var.inj same).2.1

/-! ## Finishing -/

theorem edits_of_finishes [Store σ] {e : Editor σ} {x : Event} {k : Nat} (h : e.finishes x k) :
    e.edits x = e.renameEdits := by
  have underway := (finishes_cases h).1
  have another : ∀ i, k ≠ i → e.otherRenameEdits i = e.renameEdits := by
    intro i apart
    rw [otherRenameEdits, underway, if_neg (by simpa using apart)]
  cases x with
  | act a =>
    cases a with
    | select i =>
      obtain ⟨inside, _, apart⟩ := h
      simp only [edits, actionEdits, if_pos inside, another i apart]
    | startRename i =>
      obtain ⟨⟨t, found, named⟩, _, apart⟩ := h
      simp only [edits, actionEdits, found, named, another i apart, Bool.false_eq_true, ↓reduceIte]
    | finishRename => rfl
    | clickOutside => rfl
    | _ => exact h.elim
  | _ => exact h.elim

theorem edits_of_renames [Store σ] {e : Editor σ} {x : Event} {k : Nat} {t : Token}
    (ends : e.finishes x k) (found : e.formula[k]? = some t)
    (full : Text.trim e.session.renameText ≠ "")
    (other : Text.trim e.session.renameText ≠ t.label) :
    e.edits x = [.replace k (renamedToken e.ids t (Text.trim e.session.renameText))] := by
  rw [edits_of_finishes ends]
  simp only [renameEdits, (finishes_cases ends).1, found]
  rw [nameEdits, if_neg (by simpa using ⟨full, other⟩)]

theorem startRename_text [Store σ] {e : Editor σ} (h : e.InRange) (i : Nat) (label : String) :
    (e.startRename i label).2.session.renameText = label := by
  have finished := (finishOtherRename_spec h i).1
  unfold startRename
  generalize e.finishOtherRename i = other at *
  obtain ⟨fault | _, d⟩ := other
  · cases finished
  · rfl

def StartsRename (e : Editor σ) (x : Event) : Prop :=
  ∃ i t, x = .act (.startRename i) ∧ e.formula[i]? = some t ∧ t.isOperator = false

theorem isOperator_of_unstarted {e : Editor σ} {i : Nat} {t : Token}
    (unstarted : ¬ e.StartsRename (.act (.startRename i))) (found : e.formula[i]? = some t) :
    t.isOperator = true :=
  Bool.of_not_eq_false fun named => unstarted ⟨i, t, rfl, found, named⟩

theorem apply_startRename [Store σ] {e : Editor σ} (h : e.InRange) {i : Nat} {t : Token}
    (found : e.formula[i]? = some t) (named : t.isOperator = false) :
    let d := (e.apply (.startRename i)).2
    d.formula[i]? = some t ∧ d.session.renameAt = some i ∧ d.session.renameText = t.label := by
  intro d
  obtain ⟨formula, _, renameAt⟩ := does_perform h (.act (.startRename i))
  have edits : e.edits (.act (.startRename i)) = e.otherRenameEdits i := by
    simp [edits, actionEdits, found, named]
  refine ⟨(congrArg (·[i]?) formula).trans ?_, renameAt.trans ?_, ?_⟩
  · rw [edits, ← found]
    rcases e.otherRenameEdits_cases i with none | ⟨k, u, _, apart, one⟩
    · rw [none]
      rfl
    · rw [one]
      exact List.getElem?_set_ne apart
  · simp [renames, found, named]
  · have noted : (e.note (.action (.startRename i))).InRange := h.noted _
    have carried : d = (deliverAfter
        ((e.note (.action (.startRename i))).startRename i t.label)).2 := by
      simp only [d, apply, carryOut, formula_note, found, named, Bool.false_eq_true, ↓reduceIte]
    have started := startRename_text noted i t.label
    rw [carried]
    generalize (e.note (.action (.startRename i))).startRename i t.label = r at started
    obtain ⟨fault | _, f⟩ := r
    · exact started
    · exact started

/-- A rename that is ended without a new text leaves a tag as it was, and nothing is saved, if
the label is blank or has no blanks at its ends. That of a number has none. Any other tag becomes
a different one, which is saved. -/
theorem untouched_rename [Store σ] (ids : IdSupply) (lookup : Option Lookup) (store : Option σ)
    (xs : List Event) :
    let e := ((Editor.new ids lookup store).run xs).2
    ∀ i t a, e.formula[i]? = some t → t.isOperator = false →
      let d := (e.apply (.startRename i)).2
      d.finishes (.act a) i →
      let f := (d.apply a).2
      let name := Text.trim t.label
      d.formula[i]? = some t ∧
        (name = "" ∨ name = t.label → f.formula = d.formula ∧ f.store = d.store) ∧
        (name ≠ "" → name ≠ t.label →
          ∃ u, u ≠ t ∧ f.formula = d.formula.set i u ∧
            f.store = d.store.map fun s => (Store.save s f.formula).2) ∧
        (∀ n, t = .number n → name = t.label) := by
  intro e i t a found named d ends f name
  have inRange : e.InRange := inRange_run (inRange_new ids lookup store) xs
  obtain ⟨kept, underway, text⟩ := apply_startRename inRange found named
  have edits : d.actionEdits a = nameEdits d.ids i t name := by
    have ending : d.actionEdits a = d.renameEdits := edits_of_finishes ends
    rw [ending]
    simp only [d, renameEdits, underway, kept, text, name]
  obtain ⟨formula, stored⟩ := d.stores_apply a
  rw [edits] at formula stored
  refine ⟨kept, ?_, ?_, ?_⟩
  · intro same
    have nothing : nameEdits d.ids i t name = [] := by
      rw [nameEdits, if_pos (by simpa using same)]
    rw [nothing] at formula stored
    exact ⟨formula, stored.trans (by cases d.store <;> rfl)⟩
  · intro full other
    have one : nameEdits d.ids i t name = [.replace i (renamedToken d.ids t name)] := by
      rw [nameEdits, if_neg (by simpa using ⟨full, other⟩)]
    rw [one] at formula stored
    refine ⟨_, renamedToken_ne named other, formula, stored.trans ?_⟩
    rw [formula]
    rfl
  · rintro n rfl
    exact Token.trim_label_number n

def taking (name : String) : List Event := [.act (.choose ⟨"c", name, "finance", 250⟩)]

def revenue : Token := .var "0-0" "Revenue" (.ofFloat 250) (some "finance")

theorem untouched_rename_of_plain_name :
    let e := ((Editor.new ⟨0, 0⟩ none (some (⟨none, false, 0⟩ : Memory))).run (taking "Revenue")).2
    let d := (e.apply (.startRename 0)).2
    let f := (d.apply .clickOutside).2
    e.formula[0]? = some revenue ∧ d.session.renameAt = some 0 ∧
      f.formula = d.formula ∧ f.store = d.store := by
  have found : ((Editor.new ⟨0, 0⟩ none (some (⟨none, false, 0⟩ : Memory))).run
      (taking "Revenue")).2.formula[0]? = some revenue := by decide +kernel
  have underway : ((((Editor.new ⟨0, 0⟩ none (some (⟨none, false, 0⟩ : Memory))).run
      (taking "Revenue")).2.apply (.startRename 0)).2).session.renameAt = some 0 := by
    decide +kernel
  have plain : Text.trim revenue.label = revenue.label := by decide
  obtain ⟨_, same, _⟩ := untouched_rename _ _ _ _ 0 revenue .clickOutside found rfl underway
  exact ⟨found, underway, same (.inr plain)⟩

/-- With a blank before the name the value and the category are lost, and that is saved. -/
theorem untouched_rename_loses_value :
    let e := ((Editor.new ⟨0, 0⟩ none (some (⟨none, false, 0⟩ : Memory))).run (taking " Cost")).2
    let d := (e.apply (.startRename 0)).2
    let f := (d.apply .finishRename).2
    d.formula = [.var "0-0" " Cost" (.ofFloat 250) (some "finance")] ∧
      f.formula = [.var "0-0" "Cost" .zero none] ∧
      d.store.map Memory.saves = some 1 ∧ f.store.map Memory.saves = some 2 := by
  decide +kernel

end Editor

end TagFormula
