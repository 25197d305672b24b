import TagFormula.Proofs.EditorSteps

/-!
What is saved, and when. Each edit that an event makes is followed at once by one save of the
formula as it then stands, and nothing else makes the store save. What comes from the store is
not given back to it.
-/
namespace TagFormula

namespace Edit

def isMutation : Edit → Bool
  | reload _ => false
  | _ => true

/-- The formulas to be saved on the way: the one after each mutation. -/
def stages : List Edit → Formula → List Formula
  | [], _ => []
  | d :: ds, f => (if d.isMutation then [d.apply f] else []) ++ stages ds (d.apply f)

theorem applyAll_append (ds cs : List Edit) (f : Formula) :
    applyAll (ds ++ cs) f = applyAll cs (applyAll ds f) := List.foldl_append

theorem stages_append (ds cs : List Edit) (f : Formula) :
    stages (ds ++ cs) f = stages ds f ++ stages cs (applyAll ds f) := by
  induction ds generalizing f with
  | nil => rfl
  | cons d ds ih =>
    rw [List.cons_append, stages, stages, ih, List.append_assoc]
    rfl

theorem stages_eq_nil {ds : List Edit} (f : Formula) (h : ∀ d ∈ ds, d.isMutation = false) :
    stages ds f = [] := by
  induction ds generalizing f with
  | nil => rfl
  | cons d ds ih =>
    obtain ⟨first, rest⟩ := List.forall_mem_cons.mp h
    rw [stages, first, ih _ rest]
    rfl

theorem applyAll_eq_getLast?_stages {ds : List Edit} (f : Formula)
    (h : ∀ d ∈ ds, d.isMutation = true) : applyAll ds f = (stages ds f).getLast?.getD f := by
  induction ds generalizing f with
  | nil => rfl
  | cons d ds ih =>
    obtain ⟨first, rest⟩ := List.forall_mem_cons.mp h
    have later := ih (d.apply f) rest
    rw [stages, first, if_pos rfl, List.singleton_append, List.getLast?_cons, Option.getD_some,
      ← later]
    rfl

end Edit

namespace Store

variable {σ : Type} [Store σ]

def afterSaves (s : σ) (fs : List Formula) : σ := fs.foldl (fun s f => (save s f).2) s

structure Attempt where
  formula : Formula
  fault : Option StorageFault
  deriving DecidableEq

def fault? : Except StorageFault Unit → Option StorageFault
  | .ok () => none
  | .error fault => some fault

def attempts (s : σ) : List Formula → List Attempt
  | [] => []
  | f :: fs => ⟨f, fault? (save s f).1⟩ :: attempts (save s f).2 fs

theorem afterSaves_append (s : σ) (fs gs : List Formula) :
    afterSaves s (fs ++ gs) = afterSaves (afterSaves s fs) gs := List.foldl_append

theorem attempts_append (s : σ) (fs gs : List Formula) :
    attempts s (fs ++ gs) = attempts s fs ++ attempts (afterSaves s fs) gs := by
  induction fs generalizing s with
  | nil => rfl
  | cons f fs ih =>
    rw [List.cons_append, attempts, attempts, ih, List.cons_append]
    rfl

theorem map_formula_attempts (s : σ) (fs : List Formula) :
    (attempts s fs).map Attempt.formula = fs := by
  induction fs generalizing s with
  | nil => rfl
  | cons f fs ih => rw [attempts, List.map_cons, ih]

theorem last_attempt {s : σ} {log : List Attempt} {fs : List Formula} {a : Attempt}
    (last : (log ++ attempts s fs).getLast? = some a) :
    fs = [] ∧ log.getLast? = some a ∨ fs.getLast? = some a.formula := by
  have asked := map_formula_attempts s fs
  rw [List.getLast?_append] at last
  cases final : (attempts s fs).getLast? with
  | none =>
    rw [final] at last
    rw [List.getLast?_eq_none_iff.mp final] at asked
    exact .inl ⟨asked.symm, last⟩
  | some b =>
    rw [final] at last
    cases last
    rw [← asked, List.getLast?_map, final]
    exact .inr rfl

end Store

namespace Editor

open Edit (applyAll stages)

variable {σ : Type} [Store σ]

def attempts (e : Editor σ) (fs : List Formula) : List Store.Attempt :=
  match e.store with
  | some s => Store.attempts s fs
  | none => []

/-- The edits are made, each is saved right after it, and the saves that fail become warnings. -/
structure Saves (ds : List Edit) (e e' : Editor σ) : Prop where
  formula : e'.formula = applyAll ds e.formula
  store : e'.store = e.store.map (Store.afterSaves · (stages ds e.formula))
  warnings : e'.warnings =
    e.warnings ++ (e.attempts (stages ds e.formula)).filterMap Store.Attempt.fault

namespace Saves

theorem of_eq {e e' : Editor σ} (formula : e'.formula = e.formula) (store : e'.store = e.store)
    (warnings : e'.warnings = e.warnings) : Saves [] e e' where
  formula := formula
  store := by
    rw [store]
    cases e.store <;> rfl
  warnings := by
    rw [warnings]
    unfold attempts
    cases e.store <;> exact (List.append_nil _).symm

theorem of_same {e e' : Editor σ} (h : SameButLookup e e') : Saves [] e e' :=
  of_eq h.formula h.store h.warnings

theorem trans {ds cs : List Edit} {e d c : Editor σ} (first : Saves ds e d)
    (second : Saves cs d c) : Saves (ds ++ cs) e c := by
  obtain ⟨formula, store, warnings⟩ := second
  rw [first.formula] at formula store warnings
  rw [first.store] at store
  rw [first.warnings] at warnings
  refine ⟨?_, ?_, ?_⟩
  · rw [formula, Edit.applyAll_append]
  · rw [store, Option.map_map, Edit.stages_append]
    congr 1
    funext s
    exact (Store.afterSaves_append s _ _).symm
  · have after := first.store
    unfold attempts at warnings ⊢
    rw [warnings, after, Edit.stages_append]
    cases e.store with
    | none => simp
    | some s => simp [Store.attempts_append, List.filterMap_append]

theorem after_eq {ds : List Edit} {e d c : Editor σ} (formula : d.formula = e.formula)
    (store : d.store = e.store) (warnings : d.warnings = e.warnings) (saved : Saves ds d c) :
    Saves ds e c := (of_eq formula store warnings).trans saved

theorem after_same {ds : List Edit} {e d c : Editor σ} (h : SameButLookup e d)
    (saved : Saves ds d c) : Saves ds e c := after_eq h.formula h.store h.warnings saved

theorem then_eq {ds : List Edit} {e d c : Editor σ} (saved : Saves ds e d)
    (formula : c.formula = d.formula) (store : c.store = d.store)
    (warnings : c.warnings = d.warnings) : Saves ds e c := by
  simpa using saved.trans (of_eq formula store warnings)

theorem noted {ds : List Edit} {e d : Editor σ} (saved : Saves ds e d) (n : Notice) :
    Saves ds e (d.note n) := saved.then_eq rfl rfl rfl

end Saves

theorem saves_persist {e d : Editor σ} {c : Edit} (mutates : c.isMutation = true)
    (formula : d.formula = c.apply e.formula) (store : d.store = e.store)
    (warnings : d.warnings = e.warnings) : Saves [c] e d.persist := by
  have saved : stages [c] e.formula = [d.formula] := by
    rw [stages, mutates, formula]
    rfl
  refine ⟨(formula_persist d).trans formula, ?_, ?_⟩
  · rw [saved, ← store]
    unfold persist
    cases stored : d.store with
    | none => exact stored
    | some s =>
      rcases outcome : Store.save s d.formula with ⟨fault | _, after⟩
      · simp [outcome, Store.afterSaves]
      · cases path : Store.path? after <;> simp [outcome, path, Store.afterSaves]
  · rw [saved, ← warnings]
    unfold persist attempts
    rw [← store]
    cases d.store with
    | none => exact (List.append_nil _).symm
    | some s =>
      rcases outcome : Store.save s d.formula with ⟨fault | _, after⟩
      · simp [outcome, Store.attempts, Store.fault?]
      · cases path : Store.path? after <;> simp [outcome, path, Store.attempts, Store.fault?]

/-! ## Direct changes -/

theorem saves_append (e : Editor σ) (t : Token) : Saves [.append t] e (e.append t) :=
  saves_persist rfl rfl rfl rfl

theorem saves_clear (e : Editor σ) : Saves [.clear] e e.clear := saves_persist rfl rfl rfl rfl

theorem saves_removeAt (e : Editor σ) (i : Nat) :
    Saves (if i < e.formula.length then [.remove i] else []) e (e.removeAt i).2 := by
  split
  · next inside =>
    have found := Formula.removeAt_eq_ok_iff.mpr ⟨List.getElem?_eq_getElem inside, rfl⟩
    simp only [removeAt, found]
    exact saves_persist rfl rfl rfl rfl
  · next outside =>
    rw [removeAt_of_outside (Nat.le_of_not_lt outside)]
    exact .of_same (.refl e)

theorem saves_replaceAt (e : Editor σ) (i : Nat) (t : Token) :
    Saves (if i < e.formula.length then [.replace i t] else []) e (e.replaceAt i t).2 := by
  split
  · next inside =>
    have found : e.formula.replaceAt i t = _ :=
      Formula.replaceAt_eq_ok_iff.mpr ⟨List.getElem?_eq_getElem inside, rfl⟩
    simp only [replaceAt, found]
    exact saves_persist rfl rfl rfl rfl
  · next outside =>
    rw [replaceAt_of_outside t (Nat.le_of_not_lt outside)]
    exact .of_same (.refl e)

theorem saves_load (e : Editor σ) : Saves (e.stored?.map .reload).toList e e.load.2 := by
  have kept : e.load.2.store = e.store ∧ e.load.2.warnings = e.warnings := by
    unfold load
    split
    · exact ⟨rfl, rfl⟩
    · split
      · split <;> exact ⟨rfl, rfl⟩
      · exact ⟨rfl, rfl⟩
      · exact ⟨rfl, rfl⟩
      · exact ⟨rfl, rfl⟩
  rcases e.load_cases with ⟨f, stored, formula, _⟩ | ⟨stored, same⟩
  · rw [stored]
    have unsaved := Saves.of_same (.refl e)
    refine ⟨formula, ?_, ?_⟩
    · rw [kept.1]
      exact unsaved.store
    · rw [kept.2]
      exact unsaved.warnings
  · rw [stored]
    exact .of_same same

/-! ## The entry -/

theorem saves_type (e : Editor σ) (text : String) : Saves [] e (e.type text) := by
  simp only [type]
  split
  · exact .of_eq rfl rfl rfl
  · exact .of_eq rfl rfl rfl

theorem saves_clearEntry (e : Editor σ) : Saves [] e e.clearEntry := .of_eq rfl rfl rfl

theorem saves_commit (e : Editor σ) : Saves (e.committed.map .append) e e.commit := by
  have same := e.sameButLookup_entryToken
  unfold commit
  split
  · next blank =>
    rw [committed, if_pos blank]
    exact .of_same (.refl e)
  · next full =>
    rw [entryToken_committed full]
    cases token : e.entryToken with
    | mk t d =>
      rw [token] at same
      exact .after_same same ((d.saves_append t).trans (saves_clearEntry _))

theorem saves_choose (e : Editor σ) (s : Suggestion) :
    Saves [.append (e.insertion s).1] e (e.choose s) :=
  .after_same (e.sameButLookup_insertion s) ((saves_append _ _).trans (saves_clearEntry _))

theorem saves_chooseFirst (e : Editor σ) :
    Saves (e.firstChoice.map .append) e e.chooseFirst := by
  unfold chooseFirst firstChoice
  split
  · next s rest found =>
    simpa [found] using e.saves_choose s
  · next found =>
    simpa [found] using Saves.of_same (.refl e)

theorem saves_endTag (e : Editor σ) (text : String) :
    Saves (if Text.isBlankText text then [] else [.append (tokenFor e.lookup e.ids text)]) e
      (e.endTag text) := by
  have same := e.sameButLookup_resolve text
  have token := e.resolve_token text
  unfold endTag
  split
  · exact .of_same (.refl e)
  · cases resolved : e.resolve text with
    | mk t d =>
      rw [resolved] at same token
      exact token ▸ .after_same same (d.saves_append t)

theorem saves_typeOperator (e : Editor σ) (op : Operator) :
    Saves ((e.ended ++ [Token.operator op]).map .append) e (e.typeOperator op) := by
  let emptied := { e with session := { e.session with entry := "" } }
  have empties : Saves [] e emptied := .of_eq rfl rfl rfl
  have tag := emptied.saves_endTag e.session.entry
  have more := (empties.trans tag).trans (saves_append _ (.operator op))
  have all := more.trans (saves_clearEntry _)
  rw [List.nil_append, List.append_nil] at all
  rw [List.map_append, ended, apply_ite (List.map Edit.append)]
  exact all

theorem saves_evaluate (e : Editor σ) :
    Saves (e.committed.map .append) e e.evaluate.2 := by
  have saved := e.saves_commit
  simp only [evaluate]
  split
  · split
    · exact saved.noted _
    · exact (saved.noted _).noted _
  · exact saved.noted _

/-! ## Renames -/

theorem saves_applyName {e : Editor σ} {i : Nat} (old : Token) (name : String)
    (inside : i < e.formula.length) :
    Saves (nameEdits e.ids i old name) e (e.applyName i old name).2 := by
  obtain ⟨token, same⟩ := e.renamed_spec old name
  unfold applyName nameEdits
  split
  · exact .of_same (.refl e)
  · cases renewed : e.renamed old name with
    | mk t d =>
      rw [renewed] at token same
      have inside : i < d.formula.length := same.formula ▸ inside
      have saved := d.saves_replaceAt i t
      rw [if_pos inside] at saved
      rw [← token]
      exact .after_same same saved

theorem saves_finishRename (e : Editor σ) : Saves e.renameEdits e e.finishRename.2 := by
  cases underway : e.session.renameAt with
  | none =>
    simp only [finishRename, renameEdits, underway]
    exact .of_same (.refl e)
  | some i =>
    cases found : e.formula[i]? with
    | none =>
      simp only [finishRename, renameEdits, underway, found]
      exact .of_eq rfl rfl rfl
    | some old =>
      have inside : i < e.cancelRename.formula.length := (List.getElem?_eq_some_iff.mp found).1
      have named := saves_applyName old (Text.trim e.session.renameText) inside
      rw [finishRename_eq underway found]
      simp only [renameEdits, underway, found]
      exact .after_eq (d := e.cancelRename) rfl rfl rfl named

theorem saves_finishOtherRename (e : Editor σ) (index : Nat) :
    Saves (e.otherRenameEdits index) e (e.finishOtherRename index).2 := by
  unfold finishOtherRename otherRenameEdits
  cases underway : e.session.renameAt with
  | none =>
    simp only [renameEdits, underway, ite_self]
    exact .of_same (.refl e)
  | some i =>
    simp only [Option.some.injEq]
    split
    · exact .of_same (.refl e)
    · exact e.saves_finishRename

theorem saves_select (e : Editor σ) (i : Nat) :
    Saves (if i < e.formula.length then e.otherRenameEdits i else []) e (e.select i).2 := by
  have finished := e.saves_finishOtherRename i
  split
  · next inside =>
    rw [select, if_neg (Nat.not_le.mpr inside)]
    generalize e.finishOtherRename i = other at finished
    obtain ⟨fault | _, d⟩ := other
    · exact finished
    · exact finished.then_eq rfl rfl rfl
  · next outside =>
    rw [select_of_outside (Nat.le_of_not_lt outside)]
    exact .of_same (.refl e)

theorem saves_startRename (e : Editor σ) (i : Nat) (label : String) :
    Saves (e.otherRenameEdits i) e (e.startRename i label).2 := by
  have finished := e.saves_finishOtherRename i
  unfold startRename
  generalize e.finishOtherRename i = other at finished
  obtain ⟨fault | _, d⟩ := other
  · exact finished
  · exact finished.then_eq rfl rfl rfl

theorem saves_replaceWith (e : Editor σ) (i : Nat) (s : Suggestion) :
    Saves (if i < e.formula.length then [.replace i (e.insertion s).1] else []) e
      (e.replaceWith i s).2 := by
  have same := e.sameButLookup_insertion s
  have replaced := (e.insertion s).2.saves_replaceAt i (e.insertion s).1
  rw [same.formula] at replaced
  unfold replaceWith
  simp only
  generalize (e.insertion s).2.replaceAt i (e.insertion s).1 = outcome at replaced
  obtain ⟨fault | _, d⟩ := outcome
  · exact .after_same same replaced
  · exact (Saves.after_same same replaced).then_eq rfl rfl rfl

theorem saves_typeRename (e : Editor σ) (text : String) : Saves [] e (e.typeRename text) := by
  unfold typeRename
  split
  · exact .of_eq rfl rfl rfl
  · exact .of_same (.refl e)

theorem saves_erase (e : Editor σ) : Saves (e.actionEdits .erase) e e.erase.2 := by
  simp only [erase, actionEdits]
  split
  · next last =>
    have removed := e.saves_removeAt (e.formula.length - 1)
    have inside : e.formula.length - 1 < e.formula.length := by
      cases shape : e.formula with
      | nil => simp [shape] at last
      | cons t rest => simp
    rw [if_pos inside] at removed
    exact removed
  · exact .of_same (.refl e)

/-! ## Actions and events -/

/-- An outcome of the edits: the warnings of the state `d` may have been delivered with it. -/
def Delivers (ds : List Edit) (e : Editor σ) (r : Except Fault (List Effect) × Editor σ) :
    Prop :=
  ∃ d, Saves ds e d ∧ ((∃ effects, r = deliver effects d) ∨ r.2 = d)

theorem delivers_deliver {ds : List Edit} {e d : Editor σ} (effects : List Effect)
    (saved : Saves ds e d) : Delivers ds e (deliver effects d) :=
  ⟨d, saved, .inl ⟨effects, rfl⟩⟩

theorem delivers_deliverAfter {ds : List Edit} {e : Editor σ} {r : Except Fault Unit × Editor σ}
    (saved : Saves ds e r.2) : Delivers ds e (deliverAfter r) := by
  obtain ⟨fault | _, d⟩ := r
  · exact ⟨d, saved, .inr rfl⟩
  · exact delivers_deliver [] saved

theorem delivers_operator (e : Editor σ) (c : Char) :
    Delivers ((e.typed c).map .append) e (e.carryOut (.operator c)) := by
  unfold typed carryOut
  simp only
  cases Operator.ofChar? c with
  | none => exact delivers_deliver [] (.of_same (.refl e))
  | some op => exact delivers_deliver [] (e.saves_typeOperator op)

theorem delivers_startRename (e : Editor σ) (i : Nat) :
    Delivers (e.actionEdits (.startRename i)) e (e.carryOut (.startRename i)) := by
  unfold actionEdits carryOut
  simp only
  cases e.formula[i]? with
  | none => exact ⟨e, .of_same (.refl e), .inr rfl⟩
  | some t =>
    simp only
    split
    · exact ⟨_, .of_same (sameButLookup_note e _), .inr rfl⟩
    · exact delivers_deliverAfter (e.saves_startRename i t.label)

theorem delivers_carryOut (e : Editor σ) (a : Action) :
    Delivers (e.actionEdits a) e (e.carryOut a) := by
  cases a with
  | type text => exact delivers_deliver [] (e.saves_type text)
  | erase => exact delivers_deliverAfter e.saves_erase
  | operator c => exact e.delivers_operator c
  | commit => exact delivers_deliver [] e.saves_commit
  | acceptFirst => exact delivers_deliver [] e.saves_chooseFirst
  | choose s => exact delivers_deliver [] (e.saves_choose s)
  | evaluate => exact delivers_deliver _ e.saves_evaluate
  | select i => exact delivers_deliverAfter (e.saves_select i)
  | replaceWith i s => exact delivers_deliverAfter (e.saves_replaceWith i s)
  | remove i => exact delivers_deliverAfter (e.saves_removeAt i)
  | startRename i => exact e.delivers_startRename i
  | typeRename text => exact delivers_deliver [] (e.saves_typeRename text)
  | finishRename => exact delivers_deliverAfter e.saves_finishRename
  | cancelRename => exact delivers_deliver [] (.of_eq rfl rfl rfl)
  | clickOutside => exact delivers_deliverAfter e.saves_finishRename
  | clear => exact delivers_deliver [] e.saves_clear

structure Stores (ds : List Edit) (e e' : Editor σ) : Prop where
  formula : e'.formula = applyAll ds e.formula
  store : e'.store = e.store.map (Store.afterSaves · (stages ds e.formula))

theorem Saves.stores {ds : List Edit} {e e' : Editor σ} (h : Saves ds e e') : Stores ds e e' :=
  ⟨h.formula, h.store⟩

theorem Delivers.stores {ds : List Edit} {e : Editor σ}
    {r : Except Fault (List Effect) × Editor σ} (h : Delivers ds e r) : Stores ds e r.2 := by
  obtain ⟨d, saved, ⟨effects, rfl⟩ | rfl⟩ := h
  · exact ⟨saved.formula, saved.store⟩
  · exact saved.stores

theorem stores_apply (e : Editor σ) (a : Action) : Stores (e.actionEdits a) e (e.apply a).2 := by
  have stored := ((e.note (.action a)).delivers_carryOut a).stores
  rw [actionEdits_note] at stored
  exact ⟨stored.formula, stored.store⟩

theorem stores_perform (e : Editor σ) (x : Event) : Stores (e.edits x) e (e.perform x).2 := by
  cases x with
  | act a => exact e.stores_apply a
  | append t => exact (e.saves_append t).stores
  | removeAt i => exact (e.saves_removeAt i).stores
  | replaceAt i t => exact (e.saves_replaceAt i t).stores
  | resolve text =>
    simp only [perform]
    exact (Saves.of_same (e.sameButLookup_resolve text)).stores
  | load => exact e.saves_load.stores
  | takeWarnings => exact ⟨rfl, (Saves.of_same (.refl e)).store⟩
  | harvest => exact (Saves.of_same (e.sameButLookup_withLookup Lookup.harvest)).stores
  | await => exact (Saves.of_same (e.sameButLookup_withLookup Lookup.await)).stores
  | take count => exact (Saves.of_same (e.sameButLookup_onLookup _)).stores
  | serveNext => exact (Saves.of_same (e.sameButLookup_onLookup _)).stores
  | drain => exact (Saves.of_same (e.sameButLookup_onLookup _)).stores
  | advanceTo time => exact (Saves.of_same (e.sameButLookup_onLookup _)).stores

end Editor

end TagFormula
