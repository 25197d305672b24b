import TagFormula.Proofs.LiteralEntry
import TagFormula.Proofs.NameMatch
import TagFormula.Proofs.StoreIndependence

/-!
The text in the entry field. Put there without anybody being told, it has no say in what is saved or
searched for; what ends a tag takes no notice of blanks around it, as long as the first candidate is
the same.
-/
namespace TagFormula

theorem Text.isBlankText_iff_trim {text : String} : isBlankText text = true ↔ trim text = "" := by
  refine ⟨trim_of_isBlankText, fun nothing => ?_⟩
  obtain ⟨as, bs, around, left, right⟩ := exists_blanks_around text.toList
  have middle : trimmed text.toList = [] := by
    have same := congrArg String.toList nothing
    rwa [trim, String.toList_ofList] at same
  rw [middle, List.append_nil] at around
  rw [isBlankText, around, List.all_eq_true]
  exact List.forall_mem_append.mpr ⟨left, right⟩

namespace Editor

variable {σ : Type} {e : Editor σ} {x y : String}

/-! ## Another text in the field -/

/-- Another text stands in the entry field, and nobody has been told. -/
def enter (e : Editor σ) (text : String) : Editor σ :=
  { e with session := { e.session with entry := text } }

theorem entry_enter (e : Editor σ) (x : String) : (e.enter x).session.entry = x := rfl

theorem formula_enter (e : Editor σ) (x : String) : (e.enter x).formula = e.formula := rfl

theorem enter_of_entry (entry : e.session.entry = x) : e.enter x = e := entry ▸ rfl

theorem searchBest_enter (e : Editor σ) (x text : String) :
    (e.enter x).searchBest text = ((e.searchBest text).1, (e.searchBest text).2.enter x) := by
  obtain ⟨formula, session, lookup, store, warnings, ids, notices⟩ := e
  unfold searchBest enter
  cases lookup with
  | none => rfl
  | some l =>
    simp only
    rcases l.searchNow text with ⟨fault | found, after⟩
    · rfl
    · rfl

theorem resolve_enter (e : Editor σ) (x text : String) :
    (e.enter x).resolve text = ((e.resolve text).1, (e.resolve text).2.enter x) := by
  unfold resolve
  simp only
  rw [searchBest_enter]
  cases Number.read? (Text.trim text) with
  | some v => rfl
  | none =>
    simp only
    split
    · rfl
    · rcases e.searchBest (Text.trim text) with ⟨_ | s, d⟩
      · rfl
      · rfl

theorem append_enter [Store σ] (e : Editor σ) (x : String) (t : Token) :
    (e.enter x).append t = (e.append t).enter x := by
  obtain ⟨formula, session, lookup, store, warnings, ids, notices⟩ := e
  unfold append persist enter
  cases store with
  | none => rfl
  | some s =>
    simp only [store_note]
    rcases Store.save s (formula ++ [t]) with ⟨fault | _, saved⟩
    · rfl
    · simp only
      split <;> rfl

/-! ## The same text but for blanks around it -/

theorem resolve_of_trim (e : Editor σ) (same : Text.trim x = Text.trim y) :
    e.resolve x = e.resolve y := by
  unfold resolve
  rw [same]

theorem isBlankText_of_trim (same : Text.trim x = Text.trim y) :
    Text.isBlankText x = Text.isBlankText y := by
  rw [Bool.eq_iff_iff, Text.isBlankText_iff_trim, Text.isBlankText_iff_trim, same]

theorem typeOperator_of_trim [Store σ] (e : Editor σ) (op : Operator)
    (same : Text.trim x = Text.trim y) :
    (e.enter x).typeOperator op = (e.enter y).typeOperator op := by
  have ended : (e.enter "").endTag x = (e.enter "").endTag y := by
    simp only [endTag, isBlankText_of_trim same, resolve_of_trim _ same]
  exact congrArg (fun c : Editor σ => (c.append (.operator op)).clearEntry) ended

theorem entryToken_of_trim (e : Editor σ) (same : Text.trim x = Text.trim y)
    (first : (e.enter x).candidates.head? = (e.enter y).candidates.head?) :
    ∃ t d, (e.enter x).entryToken = (t, enter d x) ∧ (e.enter y).entryToken = (t, enter d y) := by
  have resolved : (e.enter y).resolve y = ((e.resolve x).1, (e.resolve x).2.enter y) := by
    rw [resolve_enter, resolve_of_trim e same]
  unfold entryToken
  cases left : (e.enter x).candidates with
  | nil =>
    rw [left, List.head?_nil] at first
    rw [List.head?_eq_none_iff.mp first.symm]
    exact ⟨_, _, resolve_enter e x x, resolved⟩
  | cons s rest =>
    rw [left, List.head?_cons] at first
    obtain ⟨others, right⟩ := List.head?_eq_some_iff.mp first.symm
    rw [right]
    exact ⟨_, (e.insertion s).2, rfl, rfl⟩

theorem commit_of_trim [Store σ] (e : Editor σ) (same : Text.trim x = Text.trim y)
    (first : (e.enter x).candidates.head? = (e.enter y).candidates.head?)
    (full : ¬ Text.isBlankText x = true) : (e.enter x).commit = (e.enter y).commit := by
  have filled : ¬ Text.isBlankText y = true := by rwa [← isBlankText_of_trim same]
  obtain ⟨t, d, left, right⟩ := e.entryToken_of_trim same first
  have made (z : String) (token : (e.enter z).entryToken = (t, enter d z))
      (nonblank : ¬ Text.isBlankText z = true) : (e.enter z).commit = (d.append t).clearEntry := by
    rw [commit, entry_enter, if_neg nonblank, token]
    simp only [append_enter]
    rfl
  rw [made x left full, made y right filled]

/-! ## Typing the text -/

theorem told_type [Store σ] (e : Editor σ) (text : String) :
    (e.perform (.act (.type text))).1.withoutWarnings = .effects [] :=
  congrArg Outcome.effects (essential_warned [] _)

theorem perform_type_frame [Store σ] (e : Editor σ) (text : String) :
    (e.perform (.act (.type text))).2.formula = e.formula ∧
      (e.perform (.act (.type text))).2.session = { e.session with entry := text } ∧
      (e.perform (.act (.type text))).2.ids = e.ids := by
  have typed : (e.perform (.act (.type text))).2 =
      { (e.note (.action (.type text))).type text with warnings := [] } := rfl
  rw [typed]
  unfold type
  simp only
  split
  · exact ⟨rfl, rfl, rfl⟩
  · exact ⟨rfl, rfl, rfl⟩

theorem formula_apply_eq_commit [Store σ] (e : Editor σ) {a : Action}
    (h : a = .commit ∨ a = .evaluate) : (e.apply a).2.formula = e.commit.formula :=
  (formula_apply_commit e h).trans e.appends_commit.formula.symm

end Editor

end TagFormula
