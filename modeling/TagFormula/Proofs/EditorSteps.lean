import TagFormula.Proofs.Edit
import TagFormula.Proofs.EntrySteps

/-!
What each event does to an editor: the edits of the formula, and what becomes of the selection
and of a rename. Both follow their tags through the edits; then the event may set them anew. As
long as both name tags of the formula, an action is refused only for a position of its own.
-/
namespace TagFormula.Editor

variable {σ : Type}

open Edit (applyAll followAll)

structure InRange (e : Editor σ) : Prop where
  selection : ∀ i, e.session.selection = some i → i < e.formula.length
  renameAt : ∀ i, e.session.renameAt = some i → i < e.formula.length

theorem InRange.noted {e : Editor σ} (h : e.InRange) (n : Notice) : (e.note n).InRange :=
  ⟨h.selection, h.renameAt⟩

/-! ## The edits of an event -/

def renamedToken (ids : IdSupply) (old : Token) (name : String) : Token :=
  match Number.read? name, old with
  | some v, _ => .ofFloat v
  | none, .var id _ _ _ => .var id name .zero none
  | none, _ => .var ids.id name .zero none

def nameEdits (ids : IdSupply) (i : Nat) (old : Token) (name : String) : List Edit :=
  if name.isEmpty || name == old.label then [] else [.replace i (renamedToken ids old name)]

def renameEdits (e : Editor σ) : List Edit :=
  match e.session.renameAt with
  | none => []
  | some i =>
    match e.formula[i]? with
    | none => []
    | some old => nameEdits e.ids i old (Text.trim e.session.renameText)

def otherRenameEdits (e : Editor σ) (index : Nat) : List Edit :=
  if e.session.renameAt = some index then [] else e.renameEdits

def actionEdits (e : Editor σ) : Action → List Edit
  | .erase =>
    if e.session.entry.isEmpty && !e.formula.isEmpty then [.remove (e.formula.length - 1)] else []
  | .select i => if i < e.formula.length then e.otherRenameEdits i else []
  | .replaceWith i s => if i < e.formula.length then [.replace i (e.insertion s).1] else []
  | .remove i => if i < e.formula.length then [.remove i] else []
  | .startRename i =>
    match e.formula[i]? with
    | some t => if t.isOperator then [] else e.otherRenameEdits i
    | none => []
  | .finishRename | .clickOutside => e.renameEdits
  | .clear => [.clear]
  | a => (e.entered a).map .append

theorem actionEdits_note (e : Editor σ) (n : Notice) (a : Action) :
    (e.note n).actionEdits a = e.actionEdits a := by
  cases a <;> rfl

def stored? [Store σ] (e : Editor σ) : Option Formula :=
  match e.store.map Store.load with
  | some (.ok found) => found
  | _ => none

def edits [Store σ] (e : Editor σ) : Event → List Edit
  | .act a => e.actionEdits a
  | .append t => [.append t]
  | .removeAt i => if i < e.formula.length then [.remove i] else []
  | .replaceAt i t => if i < e.formula.length then [.replace i t] else []
  | .load => (e.stored?.map .reload).toList
  | _ => []

/-- The selection after the edits of an event. -/
def selects (e : Editor σ) : Event → Option Nat → Option Nat
  | .act (.select i), s =>
    if i < e.formula.length then (if s = some i then none else some i) else s
  | .act (.replaceWith i _), s => if i < e.formula.length then none else s
  | _, s => s

def renames (e : Editor σ) : Event → Option Nat → Option Nat
  | .act (.select i), r => if i < e.formula.length ∧ r ≠ some i then none else r
  | .act (.startRename i), r =>
    match e.formula[i]? with
    | some t => if t.isOperator then r else some i
    | none => r
  | .act .finishRename, _ | .act .clickOutside, _ | .act .cancelRename, _ => none
  | _, r => r

/-- The formula is edited, and the positions follow and are then set. -/
structure Does (ds : List Edit) (sets starts : Option Nat → Option Nat) (e e' : Editor σ) :
    Prop where
  formula : e'.formula = applyAll ds e.formula
  selection : e'.session.selection = sets (followAll ds e.session.selection)
  renameAt : e'.session.renameAt = starts (followAll ds e.session.renameAt)

theorem does_of_same {e e' : Editor σ} (h : SameButLookup e e') : Does [] id id e e' where
  formula := h.formula
  selection := by rw [h.session]; rfl
  renameAt := by rw [h.session]; rfl

theorem does_of_appends {ts : List Token} {e e' : Editor σ} (h : Appends ts e e') :
    Does (ts.map .append) id id e e' where
  formula := by rw [h.formula, Edit.applyAll_appends]
  selection := by rw [h.selection, Edit.followAll_appends]; rfl
  renameAt := by rw [h.renameAt, Edit.followAll_appends]; rfl

/-! ## Direct changes -/

theorem removeAt_of_inside [Store σ] {e : Editor σ} {i : Nat} (inside : i < e.formula.length) :
    (e.removeAt i).1 = .ok e.formula[i] ∧
      (e.removeAt i).2.formula = e.formula.eraseIdx i ∧
      (e.removeAt i).2.session = e.session.afterRemoval i := by
  have found := Formula.removeAt_eq_ok_iff.mpr ⟨List.getElem?_eq_getElem inside, rfl⟩
  simp only [removeAt, found, formula_persist, session_persist, and_self]

theorem replaceAt_of_inside [Store σ] {e : Editor σ} {i : Nat} (t : Token)
    (inside : i < e.formula.length) :
    (e.replaceAt i t).1 = .ok e.formula[i] ∧
      (e.replaceAt i t).2.formula = e.formula.set i t ∧
      (e.replaceAt i t).2.session = e.session := by
  have found : e.formula.replaceAt i t = _ :=
    Formula.replaceAt_eq_ok_iff.mpr ⟨List.getElem?_eq_getElem inside, rfl⟩
  simp only [replaceAt, found, formula_persist, session_persist, session_note, and_self]

theorem does_removeAt [Store σ] (e : Editor σ) (i : Nat) :
    Does (if i < e.formula.length then [.remove i] else []) id id e (e.removeAt i).2 := by
  split
  · next inside =>
    obtain ⟨_, formula, session⟩ := removeAt_of_inside inside
    refine ⟨formula, ?_, ?_⟩
    · rw [session]; rfl
    · rw [session]; rfl
  · next outside =>
    rw [removeAt_of_outside (Nat.le_of_not_lt outside)]
    exact does_of_same (.refl e)

theorem does_replaceAt [Store σ] (e : Editor σ) (i : Nat) (t : Token) :
    Does (if i < e.formula.length then [.replace i t] else []) id id e (e.replaceAt i t).2 := by
  split
  · next inside =>
    obtain ⟨_, formula, session⟩ := replaceAt_of_inside t inside
    refine ⟨formula, ?_, ?_⟩
    · rw [session]; rfl
    · rw [session]; rfl
  · next outside =>
    rw [replaceAt_of_outside t (Nat.le_of_not_lt outside)]
    exact does_of_same (.refl e)

theorem does_clear [Store σ] (e : Editor σ) : Does [.clear] id id e e.clear := by
  refine ⟨?_, ?_, ?_⟩ <;> simp [clear, applyAll, Edit.apply, followAll, Edit.follow,
    Session.withoutRename]

/-- A store that gives a formula back puts it in place of the current one; otherwise loading
leaves the editor as it is. -/
theorem load_cases [Store σ] (e : Editor σ) :
    (∃ f, e.stored? = some f ∧ e.load.2.formula = f ∧
      e.load.2.session = { e.session with selection := none, renameAt := none }) ∨
    (e.stored? = none ∧ SameButLookup e e.load.2) := by
  unfold load stored?
  cases stored : e.store with
  | none => exact .inr ⟨rfl, .refl e⟩
  | some s =>
    simp only [Option.map_some]
    rcases Store.load s with fault | _ | f
    · exact .inr ⟨rfl, sameButLookup_note e _⟩
    · cases Store.path? s with
      | none => exact .inr ⟨rfl, .refl e⟩
      | some path => exact .inr ⟨rfl, sameButLookup_note e _⟩
    · refine .inl ⟨f, rfl, rfl, ?_⟩
      cases Store.path? s with
      | none => rfl
      | some path => rfl

theorem does_load [Store σ] (e : Editor σ) :
    Does (e.stored?.map .reload).toList id id e e.load.2 := by
  rcases e.load_cases with ⟨f, stored, formula, session⟩ | ⟨stored, same⟩
  · rw [stored]
    refine ⟨formula, ?_, ?_⟩
    · rw [session]; rfl
    · rw [session]; rfl
  · rw [stored]
    exact does_of_same same

/-! ## Renames -/

theorem renamed_spec (e : Editor σ) (old : Token) (name : String) :
    (e.renamed old name).1 = renamedToken e.ids old name ∧
      SameButLookup e (e.renamed old name).2 := by
  unfold renamed renamedToken
  cases Number.read? name with
  | some v => exact ⟨rfl, .refl e⟩
  | none =>
    cases old with
    | var id _ _ _ => exact ⟨rfl, .refl e⟩
    | number v => exact ⟨rfl, e.sameButLookup_freshVar name⟩
    | operator op => exact ⟨rfl, e.sameButLookup_freshVar name⟩

theorem applyName_spec [Store σ] {e : Editor σ} {i : Nat} (old : Token) (name : String)
    (inside : i < e.formula.length) :
    (e.applyName i old name).1 = .ok () ∧
      (e.applyName i old name).2.session = e.session ∧
      (e.applyName i old name).2.formula = applyAll (nameEdits e.ids i old name) e.formula := by
  obtain ⟨token, same⟩ := e.renamed_spec old name
  unfold applyName nameEdits
  split
  · exact ⟨rfl, rfl, rfl⟩
  · cases renewed : e.renamed old name with
    | mk t d =>
      rw [renewed] at token same
      have inside : i < d.formula.length := same.formula ▸ inside
      obtain ⟨replaced, formula, kept⟩ := replaceAt_of_inside t inside
      refine ⟨?_, kept.trans same.session, ?_⟩
      · simp only [replaced, Except.map]
      · rw [← token]
        exact same.formula ▸ formula

theorem finishRename_eq [Store σ] {e : Editor σ} {i : Nat} {old : Token}
    (underway : e.session.renameAt = some i) (found : e.formula[i]? = some old) :
    e.finishRename = e.cancelRename.applyName i old (Text.trim e.session.renameText) := by
  simp only [finishRename, underway, found, cancelRename]

theorem finishRename_spec [Store σ] {e : Editor σ} (h : e.InRange) :
    e.finishRename.1 = .ok () ∧
      e.finishRename.2.formula = applyAll e.renameEdits e.formula ∧
      e.finishRename.2.session.selection = e.session.selection ∧
      e.finishRename.2.session.renameAt = none := by
  cases underway : e.session.renameAt with
  | none => simp [finishRename, renameEdits, underway, applyAll]
  | some i =>
    have inside : i < e.cancelRename.formula.length := h.renameAt i underway
    obtain ⟨old, found⟩ : ∃ old, e.formula[i]? = some old := ⟨_, List.getElem?_eq_getElem inside⟩
    obtain ⟨applied, session, formula⟩ := applyName_spec old
      (Text.trim e.session.renameText) inside
    rw [finishRename_eq underway found]
    refine ⟨applied, ?_, by rw [session]; rfl, by rw [session]; rfl⟩
    simp only [renameEdits, underway, found]
    exact formula

theorem renameEdits_cases (e : Editor σ) :
    e.renameEdits = [] ∨
      ∃ i t, e.session.renameAt = some i ∧ e.renameEdits = [.replace i t] := by
  unfold renameEdits
  split
  · exact .inl rfl
  · next i underway =>
    split
    · exact .inl rfl
    · unfold nameEdits
      split
      · exact .inl rfl
      · exact .inr ⟨i, _, underway, rfl⟩

theorem otherRenameEdits_cases (e : Editor σ) (index : Nat) :
    e.otherRenameEdits index = [] ∨
      ∃ i t, e.session.renameAt = some i ∧ i ≠ index ∧
        e.otherRenameEdits index = [.replace i t] := by
  unfold otherRenameEdits
  split
  · exact .inl rfl
  · next other =>
    rcases e.renameEdits_cases with none | ⟨i, t, underway, one⟩
    · exact .inl none
    · exact .inr ⟨i, t, underway, fun same => other (same ▸ underway), one⟩

theorem inPlace_renameEdits (e : Editor σ) : ∀ d ∈ e.renameEdits, d.InPlace := by
  intro d member
  rcases e.renameEdits_cases with none | ⟨i, t, _, one⟩
  · simp [none] at member
  · rw [one, List.mem_singleton] at member
    exact member ▸ trivial

theorem inPlace_otherRenameEdits (e : Editor σ) (index : Nat) :
    ∀ d ∈ e.otherRenameEdits index, d.InPlace := by
  unfold otherRenameEdits
  split
  · simp
  · exact e.inPlace_renameEdits

theorem does_finishRename [Store σ] {e : Editor σ} (h : e.InRange) :
    Does e.renameEdits id (fun _ => none) e e.finishRename.2 := by
  obtain ⟨_, formula, selection, renameAt⟩ := finishRename_spec h
  exact ⟨formula, by
    rw [selection, Edit.followAll_of_inPlace _ e.inPlace_renameEdits]
    rfl, renameAt⟩

theorem finishOtherRename_spec [Store σ] {e : Editor σ} (h : e.InRange) (index : Nat) :
    (e.finishOtherRename index).1 = .ok () ∧
      (e.finishOtherRename index).2.formula = applyAll (e.otherRenameEdits index) e.formula ∧
      (e.finishOtherRename index).2.session.selection = e.session.selection ∧
      (e.finishOtherRename index).2.session.renameAt =
        if e.session.renameAt = some index then some index else none := by
  obtain ⟨finished, formula, selection, renameAt⟩ := finishRename_spec h
  unfold finishOtherRename otherRenameEdits
  cases underway : e.session.renameAt with
  | none => simp [renameEdits, underway, applyAll]
  | some i =>
    simp only [Option.some.injEq]
    split
    · next same => exact ⟨rfl, rfl, rfl, same ▸ underway⟩
    · exact ⟨finished, formula, selection, renameAt⟩

theorem select_of_outside [Store σ] {e : Editor σ} {i : Nat} (outside : e.formula.length ≤ i) :
    e.select i = (.error (e.outOfRange i), e) := by
  rw [select, if_pos outside]

theorem select_of_inside [Store σ] {e : Editor σ} (h : e.InRange) {i : Nat}
    (inside : i < e.formula.length) :
    (e.select i).1 = .ok () ∧
      Does (e.otherRenameEdits i) (fun s => if s = some i then none else some i)
        (fun r => if r = some i then r else none) e (e.select i).2 := by
  obtain ⟨finished, formula, selection, renameAt⟩ := finishOtherRename_spec h i
  rw [select, if_neg (Nat.not_le.mpr inside)]
  generalize e.finishOtherRename i = other at *
  obtain ⟨fault | _, d⟩ := other
  · cases finished
  · refine ⟨rfl, formula, ?_, ?_⟩
    · rw [Edit.followAll_of_inPlace _ (e.inPlace_otherRenameEdits i), ← selection]
    · rw [Edit.followAll_of_inPlace _ (e.inPlace_otherRenameEdits i)]
      refine renameAt.trans ?_
      split
      · next same => exact same.symm
      · rfl

theorem startRename_spec [Store σ] {e : Editor σ} (h : e.InRange) (i : Nat) (label : String) :
    (e.startRename i label).1 = .ok () ∧
      Does (e.otherRenameEdits i) id (fun _ => some i) e (e.startRename i label).2 := by
  obtain ⟨finished, formula, selection, _⟩ := finishOtherRename_spec h i
  unfold startRename
  generalize e.finishOtherRename i = other at *
  obtain ⟨fault | _, d⟩ := other
  · cases finished
  · refine ⟨rfl, formula, ?_, rfl⟩
    rw [Edit.followAll_of_inPlace _ (e.inPlace_otherRenameEdits i)]
    exact selection

theorem replaceWith_of_outside [Store σ] {e : Editor σ} {i : Nat} (s : Suggestion)
    (outside : e.formula.length ≤ i) :
    e.replaceWith i s = (.error (e.outOfRange i), (e.insertion s).2) := by
  have still : (e.insertion s).2.formula.length ≤ i := outside
  have refused := replaceAt_of_outside (e.insertion s).1 still
  simp only [replaceWith, refused, outOfRange]
  rfl

theorem replaceWith_of_inside [Store σ] {e : Editor σ} {i : Nat} (s : Suggestion)
    (inside : i < e.formula.length) :
    (e.replaceWith i s).1 = .ok () ∧
      Does [.replace i (e.insertion s).1] (fun _ => none) id e (e.replaceWith i s).2 := by
  have still : i < (e.insertion s).2.formula.length := inside
  obtain ⟨replaced, formula, session⟩ := replaceAt_of_inside (e.insertion s).1 still
  unfold replaceWith
  simp only
  generalize (e.insertion s).2.replaceAt i (e.insertion s).1 = outcome at *
  obtain ⟨fault | _, d⟩ := outcome
  · cases replaced
  · have renameAt := congrArg Session.renameAt session
    exact ⟨rfl, formula, rfl, renameAt⟩

theorem does_erase [Store σ] (e : Editor σ) :
    e.erase.1 = .ok () ∧ Does (e.actionEdits .erase) id id e e.erase.2 := by
  unfold erase actionEdits
  split
  · next last =>
    have inside : e.formula.length - 1 < e.formula.length := by
      cases shape : e.formula with
      | nil => simp [shape] at last
      | cons t rest => simp
    have edited := e.does_removeAt (e.formula.length - 1)
    rw [if_pos inside] at edited
    exact ⟨by simp [remove, (removeAt_of_inside inside).1, Except.map], edited⟩
  · exact ⟨rfl, does_of_same (.refl e)⟩

/-! ## Actions and events -/

theorem does_deliver {ds : List Edit} {sets starts : Option Nat → Option Nat} {e d : Editor σ}
    (effects : List Effect) (h : Does ds sets starts e d) :
    Does ds sets starts e (deliver effects d).2 :=
  ⟨h.formula, h.selection, h.renameAt⟩

theorem does_deliverAfter {ds : List Edit} {sets starts : Option Nat → Option Nat}
    {e : Editor σ} {r : Except Fault Unit × Editor σ} (h : Does ds sets starts e r.2) :
    Does ds sets starts e (deliverAfter r).2 := by
  obtain ⟨fault | _, d⟩ := r
  · exact h
  · exact does_deliver [] h

theorem does_operator [Store σ] (e : Editor σ) (c : Char) :
    Does ((e.typed c).map .append) id id e (e.carryOut (.operator c)).2 := by
  unfold typed carryOut
  simp only
  cases Operator.ofChar? c with
  | none => exact does_deliver [] (does_of_same (.refl e))
  | some op => exact does_deliver [] (does_of_appends (e.appends_typeOperator op))

theorem does_select [Store σ] {e : Editor σ} (h : e.InRange) (i : Nat) :
    Does (e.actionEdits (.select i)) (e.selects (.act (.select i)))
      (e.renames (.act (.select i))) e (e.select i).2 := by
  unfold actionEdits selects renames
  by_cases inside : i < e.formula.length
  · obtain ⟨formula, selection, renameAt⟩ := (select_of_inside h inside).2
    refine ⟨?_, ?_, ?_⟩
    · simpa only [if_pos inside] using formula
    · simpa only [if_pos inside] using selection
    · simp only [inside, ↓reduceIte, true_and, renameAt]
      split <;> simp_all
  · rw [select_of_outside (Nat.le_of_not_lt inside)]
    simp only [inside, ↓reduceIte, false_and]
    exact does_of_same (.refl e)

theorem does_replaceWith [Store σ] (e : Editor σ) (i : Nat) (s : Suggestion) :
    Does (e.actionEdits (.replaceWith i s)) (e.selects (.act (.replaceWith i s))) id e
      (e.replaceWith i s).2 := by
  unfold actionEdits selects
  by_cases inside : i < e.formula.length
  · simpa only [inside, ↓reduceIte] using (replaceWith_of_inside s inside).2
  · rw [replaceWith_of_outside s (Nat.le_of_not_lt inside)]
    simp only [inside, ↓reduceIte]
    exact does_of_same (e.sameButLookup_insertion s)

theorem does_startRename [Store σ] {e : Editor σ} (h : e.InRange) (i : Nat) :
    Does (e.actionEdits (.startRename i)) id (e.renames (.act (.startRename i))) e
      (e.carryOut (.startRename i)).2 := by
  unfold actionEdits renames carryOut
  simp only
  cases e.formula[i]? with
  | none => exact does_of_same (.refl e)
  | some t =>
    simp only
    split
    · exact does_of_same (sameButLookup_note e _)
    · exact does_deliverAfter (startRename_spec h i t.label).2

theorem does_carryOut [Store σ] {e : Editor σ} (h : e.InRange) (a : Action) :
    Does (e.actionEdits a) (e.selects (.act a)) (e.renames (.act a)) e (e.carryOut a).2 := by
  cases a with
  | type text => exact does_deliver [] (does_of_appends (e.appends_type text))
  | erase => exact does_deliverAfter e.does_erase.2
  | operator c => exact e.does_operator c
  | commit => exact does_deliver [] (does_of_appends e.appends_commit)
  | acceptFirst => exact does_deliver [] (does_of_appends e.appends_chooseFirst)
  | choose s => exact does_deliver [] (does_of_appends (e.appends_choose s))
  | evaluate => exact does_deliver _ (does_of_appends e.appends_evaluate)
  | select i => exact does_deliverAfter (does_select h i)
  | replaceWith i s => exact does_deliverAfter (e.does_replaceWith i s)
  | remove i => exact does_deliverAfter (e.does_removeAt i)
  | startRename i => exact does_startRename h i
  | typeRename text =>
    refine does_deliver [] ?_
    unfold typeRename
    split
    · exact ⟨rfl, rfl, rfl⟩
    · exact does_of_same (.refl e)
  | finishRename => exact does_deliverAfter (does_finishRename h)
  | cancelRename => exact does_deliver [] ⟨rfl, rfl, rfl⟩
  | clickOutside => exact does_deliverAfter (does_finishRename h)
  | clear => exact does_deliver [] e.does_clear

theorem does_perform [Store σ] {e : Editor σ} (h : e.InRange) (x : Event) :
    Does (e.edits x) (e.selects x) (e.renames x) e (e.perform x).2 := by
  cases x with
  | act a =>
    obtain ⟨formula, selection, renameAt⟩ := does_carryOut (h.noted (.action a)) a
    rw [actionEdits_note] at formula selection renameAt
    exact ⟨formula, selection, renameAt⟩
  | append t => exact does_of_appends (e.appends_append t)
  | removeAt i => exact e.does_removeAt i
  | replaceAt i t => exact e.does_replaceAt i t
  | resolve text =>
    simp only [perform]
    exact does_of_same (e.sameButLookup_resolve text)
  | load => exact e.does_load
  | takeWarnings => exact ⟨rfl, rfl, rfl⟩
  | harvest => exact does_of_same (e.sameButLookup_withLookup Lookup.harvest)
  | await => exact does_of_same (e.sameButLookup_withLookup Lookup.await)
  | take count => exact does_of_same (e.sameButLookup_onLookup _)
  | serveNext => exact does_of_same (e.sameButLookup_onLookup _)
  | drain => exact does_of_same (e.sameButLookup_onLookup _)
  | advanceTo time => exact does_of_same (e.sameButLookup_onLookup _)

/-! ## Runs -/

theorem inPlace_select [Store σ] (e : Editor σ) (i : Nat) :
    ∀ d ∈ e.edits (.act (.select i)), d.InPlace := by
  simp only [edits, actionEdits]
  split
  · exact e.inPlace_otherRenameEdits i
  · simp

theorem inPlace_startRename [Store σ] (e : Editor σ) (i : Nat) :
    ∀ d ∈ e.edits (.act (.startRename i)), d.InPlace := by
  simp only [edits, actionEdits]
  split
  · split
    · simp
    · exact e.inPlace_otherRenameEdits i
  · simp

theorem selects_eq_some {e : Editor σ} {x : Event} {s : Option Nat} {k : Nat}
    (h : e.selects x s = some k) :
    s = some k ∨ x = .act (.select k) ∧ k < e.formula.length := by
  unfold selects at h
  split at h
  · split at h
    · next i _ inside =>
      split at h
      · cases h
      · have same := Option.some.inj h
        exact .inr ⟨same ▸ rfl, same ▸ inside⟩
    · exact .inl h
  · split at h
    · cases h
    · exact .inl h
  · exact .inl h

theorem renames_eq_some {e : Editor σ} {x : Event} {r : Option Nat} {k : Nat}
    (h : e.renames x r = some k) :
    r = some k ∨ x = .act (.startRename k) ∧ k < e.formula.length := by
  unfold renames at h
  split at h
  · split at h
    · cases h
    · exact .inl h
  · split at h
    · next i _ t found =>
      split at h
      · exact .inl h
      · have same := Option.some.inj h
        exact .inr ⟨same ▸ rfl, same ▸ (List.getElem?_eq_some_iff.mp found).1⟩
    · exact .inl h
  · cases h
  · cases h
  · cases h
  · exact .inl h

theorem inRange_perform [Store σ] {e : Editor σ} (h : e.InRange) (x : Event) :
    (e.perform x).2.InRange := by
  obtain ⟨formula, selection, renameAt⟩ := does_perform h x
  constructor
  · intro k named
    rw [selection] at named
    rw [formula]
    rcases selects_eq_some named with kept | ⟨rfl, inside⟩
    · exact Edit.followAll_lt h.selection kept
    · rw [Edit.length_applyAll_of_inPlace _ (e.inPlace_select k)]
      exact inside
  · intro k named
    rw [renameAt] at named
    rw [formula]
    rcases renames_eq_some named with kept | ⟨rfl, inside⟩
    · exact Edit.followAll_lt h.renameAt kept
    · rw [Edit.length_applyAll_of_inPlace _ (e.inPlace_startRename k)]
      exact inside

theorem inRange_run [Store σ] {e : Editor σ} (h : e.InRange) (xs : List Event) :
    (e.run xs).2.InRange := by
  induction xs generalizing e with
  | nil => exact h
  | cons x xs ih => exact ih (inRange_perform h x)

theorem inRange_new (ids : IdSupply) (lookup : Option Lookup) (store : Option σ) :
    (Editor.new ids lookup store).InRange := by
  constructor
  · intro i selected
    cases selected
  · intro i underway
    cases underway

end TagFormula.Editor
