import TagFormula.Proofs.Since
import TagFormula.Proofs.UntouchedRename

/-!
The field of the new name. It is emptied whenever a rename ends, except when a stored formula
takes the place of the current one; then the name stays there until the field gets another one.
-/
namespace TagFormula.Editor

variable {σ : Type}

def HasStaleName (e : Editor σ) : Prop :=
  e.session.renameAt = none ∧ e.session.renameText ≠ ""

/-- A stored formula takes the place of the current one while a name is in the field. -/
def StrandsName [Store σ] (e : Editor σ) (x : Event) : Prop :=
  x = .load ∧ e.stored? ≠ none ∧ e.session.renameAt ≠ none ∧ e.session.renameText ≠ ""

/-- The field is emptied or gets the name of another tag, whatever was in it. -/
def RenewsName (e : Editor σ) (x : Event) : Prop :=
  x = .act .cancelRename ∨ x = .act .clear ∨ e.StartsRename x

structure Empties (e e' : Editor σ) : Prop where
  closed : e.session.renameAt ≠ none → e'.session.renameAt = none → e'.session.renameText = ""
  kept : e.session.renameAt = none →
    e'.session.renameAt = none ∧ e'.session.renameText = e.session.renameText

theorem empties_of_unchanged {e e' : Editor σ} (renameAt : e'.session.renameAt = e.session.renameAt)
    (text : e'.session.renameText = e.session.renameText) : Empties e e' where
  closed := fun underway gone => (underway (renameAt.symm.trans gone)).elim
  kept := fun none => ⟨renameAt.trans none, text⟩

theorem empties_of_same {e e' : Editor σ} (h : SameButLookup e e') : Empties e e' :=
  empties_of_unchanged (by rw [h.session]) (by rw [h.session])

theorem empties_of_appends {ts : List Token} {e e' : Editor σ} (h : Appends ts e e') :
    Empties e e' :=
  empties_of_unchanged h.renameAt h.renameText

theorem empties_removeAt [Store σ] (e : Editor σ) (i : Nat) : Empties e (e.removeAt i).2 := by
  by_cases inside : i < e.formula.length
  · obtain ⟨_, _, session⟩ := removeAt_of_inside inside
    refine ⟨?_, ?_⟩
    · intro underway gone
      rw [session] at gone ⊢
      have named := Option.isSome_iff_ne_none.mpr underway
      have lost : shiftAfterRemoval i e.session.renameAt = none := gone
      simp only [Session.afterRemoval, named, lost, Option.isNone_none, Bool.and_self, if_true]
    · intro none
      rw [session]
      simp only [Session.afterRemoval, none, shiftAfterRemoval_none, Option.isSome_none,
        Bool.false_and, Bool.false_eq_true, if_false, and_self]
  · rw [removeAt_of_outside (Nat.le_of_not_lt inside)]
    exact empties_of_same (.refl e)

theorem empties_replaceAt [Store σ] (e : Editor σ) (i : Nat) (t : Token) :
    Empties e (e.replaceAt i t).2 := by
  by_cases inside : i < e.formula.length
  · have session := (replaceAt_of_inside t inside).2.2
    exact empties_of_unchanged (by rw [session]) (by rw [session])
  · rw [replaceAt_of_outside t (Nat.le_of_not_lt inside)]
    exact empties_of_same (.refl e)

theorem empties_replaceWith [Store σ] (e : Editor σ) (i : Nat) (s : Suggestion) :
    Empties e (e.replaceWith i s).2 := by
  obtain ⟨closed, kept⟩ := (e.insertion s).2.empties_replaceAt i (e.insertion s).1
  unfold replaceWith
  simp only
  generalize (e.insertion s).2.replaceAt i (e.insertion s).1 = outcome at *
  obtain ⟨fault | t, d⟩ := outcome
  · exact ⟨closed, kept⟩
  · exact ⟨closed, kept⟩

theorem empties_erase [Store σ] (e : Editor σ) : Empties e e.erase.2 := by
  unfold erase
  split
  · exact e.empties_removeAt _
  · exact empties_of_same (.refl e)

theorem session_finishRename [Store σ] {e : Editor σ} (h : e.InRange)
    (underway : e.session.renameAt ≠ none) :
    e.finishRename.2.session = e.session.withoutRename := by
  obtain ⟨i, named⟩ := Option.ne_none_iff_exists'.mp underway
  have inside := h.renameAt i named
  rw [finishRename_eq named (List.getElem?_eq_getElem inside)]
  exact (applyName_spec (e := e.cancelRename) _ _ inside).2.1

theorem empties_finishRename [Store σ] {e : Editor σ} (h : e.InRange) :
    Empties e e.finishRename.2 := by
  cases underway : e.session.renameAt with
  | none =>
    have still : e.finishRename = (.ok (), e) := by simp only [finishRename, underway]
    rw [still]
    exact empties_of_same (.refl e)
  | some i =>
    have named : e.session.renameAt ≠ none := by simp [underway]
    have session := session_finishRename h named
    exact ⟨fun _ _ => by rw [session]; rfl, fun none => (named none).elim⟩

theorem empties_finishOtherRename [Store σ] {e : Editor σ} (h : e.InRange) (index : Nat) :
    Empties e (e.finishOtherRename index).2 := by
  unfold finishOtherRename
  split
  · split
    · exact empties_of_same (.refl e)
    · exact empties_finishRename h
  · exact empties_of_same (.refl e)

theorem empties_select [Store σ] {e : Editor σ} (h : e.InRange) (index : Nat) :
    Empties e (e.select index).2 := by
  obtain ⟨closed, kept⟩ := empties_finishOtherRename h index
  unfold select
  split
  · exact empties_of_same (.refl e)
  · generalize e.finishOtherRename index = other at *
    obtain ⟨fault | _, d⟩ := other
    · exact ⟨closed, kept⟩
    · exact ⟨closed, kept⟩

theorem empties_typeRename (e : Editor σ) (text : String) : Empties e (e.typeRename text) := by
  unfold typeRename
  split
  · next named =>
    have underway : e.session.renameAt ≠ none := Option.isSome_iff_ne_none.mp named
    exact ⟨fun _ gone => (underway gone).elim, fun none => (underway none).elim⟩
  · exact empties_of_same (.refl e)

theorem empties_deliver {e d : Editor σ} (effects : List Effect) (h : Empties e d) :
    Empties e (deliver effects d).2 :=
  ⟨h.closed, h.kept⟩

theorem empties_deliverAfter {e : Editor σ} {r : Except Fault Unit × Editor σ}
    (h : Empties e r.2) : Empties e (deliverAfter r).2 := by
  obtain ⟨fault | _, d⟩ := r
  · exact h
  · exact empties_deliver [] h

theorem empties_operator [Store σ] (e : Editor σ) (c : Char) :
    Empties e (e.carryOut (.operator c)).2 := by
  unfold carryOut
  simp only
  cases Operator.ofChar? c with
  | none => exact empties_deliver [] (empties_of_same (.refl e))
  | some op => exact empties_deliver [] (empties_of_appends (e.appends_typeOperator op))

theorem empties_startRename [Store σ] {e : Editor σ} {i : Nat}
    (unstarted : ¬ e.StartsRename (.act (.startRename i))) :
    Empties e (e.carryOut (.startRename i)).2 := by
  unfold carryOut
  simp only
  cases found : e.formula[i]? with
  | none => exact empties_of_same (.refl e)
  | some t =>
    simp only [isOperator_of_unstarted unstarted found, if_true]
    exact empties_of_same (sameButLookup_note e _)

theorem empties_carryOut [Store σ] {e : Editor σ} (h : e.InRange) {a : Action}
    (left : ¬ e.RenewsName (.act a)) : Empties e (e.carryOut a).2 := by
  cases a with
  | type text => exact empties_deliver [] (empties_of_appends (e.appends_type text))
  | erase => exact empties_deliverAfter e.empties_erase
  | operator c => exact e.empties_operator c
  | commit => exact empties_deliver [] (empties_of_appends e.appends_commit)
  | acceptFirst => exact empties_deliver [] (empties_of_appends e.appends_chooseFirst)
  | choose s => exact empties_deliver [] (empties_of_appends (e.appends_choose s))
  | evaluate => exact empties_deliver _ (empties_of_appends e.appends_evaluate)
  | select i => exact empties_deliverAfter (empties_select h i)
  | replaceWith i s => exact empties_deliverAfter (e.empties_replaceWith i s)
  | remove i => exact empties_deliverAfter (e.empties_removeAt i)
  | startRename i => exact empties_startRename fun starts => left (.inr (.inr starts))
  | typeRename text => exact empties_deliver [] (e.empties_typeRename text)
  | finishRename => exact empties_deliverAfter (empties_finishRename h)
  | cancelRename => exact (left (.inl rfl)).elim
  | clickOutside => exact empties_deliverAfter (empties_finishRename h)
  | clear => exact (left (.inr (.inl rfl))).elim

theorem empties_perform [Store σ] {e : Editor σ} (h : e.InRange) {x : Event}
    (left : ¬ e.RenewsName x) (unloaded : x ≠ .load) : Empties e (e.perform x).2 := by
  cases x with
  | act a =>
    obtain ⟨closed, kept⟩ := empties_carryOut (h.noted (.action a)) left
    exact ⟨closed, kept⟩
  | append t => exact empties_of_appends (e.appends_append t)
  | removeAt i => exact e.empties_removeAt i
  | replaceAt i t => exact e.empties_replaceAt i t
  | resolve text =>
    simp only [perform]
    exact empties_of_same (e.sameButLookup_resolve text)
  | load => exact (unloaded rfl).elim
  | takeWarnings => exact empties_of_unchanged rfl rfl
  | harvest => exact empties_of_same (e.sameButLookup_withLookup Lookup.harvest)
  | await => exact empties_of_same (e.sameButLookup_withLookup Lookup.await)
  | take count => exact empties_of_same (e.sameButLookup_onLookup _)
  | serveNext => exact empties_of_same (e.sameButLookup_onLookup _)
  | drain => exact empties_of_same (e.sameButLookup_onLookup _)
  | advanceTo time => exact empties_of_same (e.sameButLookup_onLookup _)

theorem not_hasStaleName_of_renews [Store σ] {e : Editor σ} (h : e.InRange) {x : Event}
    (renewed : e.RenewsName x) : ¬ (e.perform x).2.HasStaleName := by
  obtain rfl | rfl | ⟨i, t, rfl, found, named⟩ := renewed
  · exact fun stale => stale.2 rfl
  · refine fun stale => stale.2 ?_
    simp only [perform, apply, carryOut, deliver, takeWarnings, clear, session_persist,
      Session.withoutRename]
  · obtain ⟨_, underway, _⟩ := apply_startRename h found named
    exact fun stale => Option.some_ne_none i (underway.symm.trans stale.1)

theorem hasStaleName_load_iff [Store σ] (e : Editor σ) :
    (e.perform .load).2.HasStaleName ↔ e.StrandsName .load ∨ e.HasStaleName := by
  simp only [HasStaleName, StrandsName, perform]
  rcases e.load_cases with ⟨f, stored, _, session⟩ | ⟨unread, same⟩
  · rw [session, stored]
    constructor
    · rintro ⟨_, full⟩
      by_cases gone : e.session.renameAt = none
      · exact .inr ⟨gone, full⟩
      · exact .inl ⟨trivial, Option.some_ne_none f, gone, full⟩
    · rintro (⟨_, _, _, full⟩ | ⟨_, full⟩)
      · exact ⟨rfl, full⟩
      · exact ⟨rfl, full⟩
  · rw [same.session, unread]
    refine (or_iff_right ?_).symm
    exact fun strands => strands.2.1 rfl

theorem hasStaleName_iff_of_empties {e e' : Editor σ} (h : Empties e e') :
    e'.HasStaleName ↔ e.HasStaleName := by
  constructor
  · rintro ⟨gone, full⟩
    by_cases before : e.session.renameAt = none
    · exact ⟨before, (h.kept before).2 ▸ full⟩
    · exact (full (h.closed before gone)).elim
  · rintro ⟨before, full⟩
    obtain ⟨gone, text⟩ := h.kept before
    exact ⟨gone, text.symm ▸ full⟩

theorem hasStaleName_perform_iff [Store σ] {e : Editor σ} (h : e.InRange) (x : Event) :
    (e.perform x).2.HasStaleName ↔ e.StrandsName x ∨ e.HasStaleName ∧ ¬ e.RenewsName x := by
  by_cases renewed : e.RenewsName x
  · refine iff_of_false (not_hasStaleName_of_renews h renewed) ?_
    rintro (⟨rfl, _⟩ | ⟨_, left⟩)
    · obtain same | same | ⟨i, t, same, _⟩ := renewed <;> cases same
    · exact left renewed
  · rw [and_iff_left renewed]
    by_cases loads : x = .load
    · rw [loads]
      exact e.hasStaleName_load_iff
    · rw [or_iff_right fun strands => loads strands.1]
      exact hasStaleName_iff_of_empties (empties_perform h renewed loads)

/-- Without a rename the field is empty, except since a stored formula took the place of the
current one under a rename. In a run that loads nothing it always is. -/
theorem name_field_empty_unless_loaded [Store σ] (ids : IdSupply) (lookup : Option Lookup)
    (store : Option σ) (xs : List Event) :
    let start := Editor.new ids lookup store
    let e := (start.run xs).2
    (e.session.renameAt = none ∧ e.session.renameText ≠ "" ↔
      start.Since StrandsName RenewsName xs) ∧
    (.load ∉ xs → e.session.renameAt = none → e.session.renameText = "") := by
  intro start e
  have empty : ¬ start.HasStaleName := fun stale => stale.2 rfl
  have since : e.HasStaleName ↔ start.Since StrandsName RenewsName xs :=
    run_iff_since (fun e h x => hasStaleName_perform_iff h x) (inRange_new ids lookup store)
      empty xs
  refine ⟨since, ?_⟩
  intro unloaded gone
  by_contra full
  obtain ⟨ys, x, zs, rfl, ⟨rfl, _⟩, _⟩ := since.mp ⟨gone, full⟩
  simp at unloaded

/-- The name of a number under rename is still in the field when its formula has been loaded
again. -/
theorem load_strands_name :
    let e := ((Editor.new ⟨0, 0⟩ none (some (⟨none, false, 0⟩ : Memory))).run
      [.append (.ofFloat 1), .act (.startRename 0), .load]).2
    e.session.renameAt = none ∧ e.session.renameText = "1" := by
  decide +kernel

def overMemory : Editor Memory := Editor.new ⟨0, 0⟩ none (some ⟨none, false, 0⟩)

def renameLoadedOver : List Event := [.append (.ofFloat 1), .act (.startRename 0), .load]

def renameCancelled : List Event :=
  [.append (.ofFloat 1), .act (.startRename 0), .act .cancelRename]

theorem name_stranded_or_cancelled :
    overMemory.Since StrandsName RenewsName renameLoadedOver ∧ .load ∉ renameCancelled ∧
      (overMemory.run renameCancelled).2.session.renameAt = none ∧
      (overMemory.run renameCancelled).2.session.renameText = "" := by
  have closed : (overMemory.run renameLoadedOver).2.session.renameAt = none := by decide +kernel
  have full : (overMemory.run renameLoadedOver).2.session.renameText ≠ "" := by decide +kernel
  have unloaded : .load ∉ renameCancelled := by simp [renameCancelled]
  have gone : (overMemory.run renameCancelled).2.session.renameAt = none := by decide +kernel
  obtain ⟨since, _⟩ := name_field_empty_unless_loaded ⟨0, 0⟩ none
    (some (⟨none, false, 0⟩ : Memory)) renameLoadedOver
  obtain ⟨_, empty⟩ := name_field_empty_unless_loaded ⟨0, 0⟩ none
    (some (⟨none, false, 0⟩ : Memory)) renameCancelled
  unfold overMemory at *
  exact ⟨since.mp ⟨closed, full⟩, unloaded, gone, empty unloaded gone⟩

end TagFormula.Editor
