import TagFormula.Proofs.EditIds
import TagFormula.Proofs.IdSupply

/-!
What an action takes from the supply of identifiers. It makes one tag at most that needs one, so
the supply advances by one at most, and no tag that comes in has any other identifier than the one
it gave; a variable that gets another name is no new one.
-/
namespace TagFormula

/-- The supply goes from one state to another, and the tags made of it have these identifiers: at
most the next one. It may be spent on a tag that is not put in. -/
inductive IdSupply.Draws (s : IdSupply) : List String → IdSupply → Prop where
  | nothing : Draws s [] s
  | spent : Draws s [] s.advance
  | used : Draws s [s.id] s.advance

namespace IdSupply.Draws

variable {s s' : IdSupply} {drawn : List String}

theorem eq_id (h : s.Draws drawn s') {id : String} (member : id ∈ drawn) :
    id = s.id ∧ s' = s.advance := by
  cases h with
  | nothing | spent => cases member
  | used => exact ⟨List.mem_singleton.mp member, rfl⟩

theorem nodup (h : s.Draws drawn s') : drawn.Nodup := by
  cases h with
  | nothing | spent => exact List.nodup_nil
  | used => exact List.nodup_singleton _

theorem unused (h : s.Draws drawn s') : s.Draws [] s' := by
  cases h with
  | nothing => exact .nothing
  | spent | used => exact .spent

theorem yields (h : s.Draws drawn s') {id : String} (later : s'.Yields id) : s.Yields id := by
  cases h with
  | nothing => exact later
  | spent | used => exact yields_of_advance later

end IdSupply.Draws

theorem Suggestion.draws_insert (s : Suggestion) (ids : IdSupply) :
    ids.Draws (s.insert ids).1.id?.toList (s.insert ids).2 := by
  unfold insert
  split
  · exact .nothing
  · exact .used

namespace Editor

variable {σ : Type}

open Formula (varIds)

theorem draws_resolve (e : Editor σ) (text : String) :
    e.ids.Draws (e.resolve text).1.id?.toList (e.resolve text).2.ids := by
  have searched := (e.searchBest_spec (Text.trim text)).2
  unfold resolve
  simp only
  split
  · exact .nothing
  · split
    · exact .used
    · split
      · next s d found =>
        rw [found] at searched
        exact searched ▸ s.draws_insert d.ids
      · next d found =>
        rw [found] at searched
        exact searched ▸ .used

theorem draws_entryToken (e : Editor σ) :
    e.ids.Draws e.entryToken.1.id?.toList e.entryToken.2.ids := by
  unfold entryToken
  split
  · next s rest found => exact s.draws_insert e.ids
  · exact e.draws_resolve _

variable [Store σ]

@[simp] theorem ids_append (e : Editor σ) (t : Token) : (e.append t).ids = e.ids := ids_persist _

@[simp] theorem ids_clear (e : Editor σ) : e.clear.ids = e.ids := ids_persist _

@[simp] theorem ids_removeAt (e : Editor σ) (i : Nat) : (e.removeAt i).2.ids = e.ids := by
  unfold removeAt
  split
  · rfl
  · exact ids_persist _

@[simp] theorem ids_replaceAt (e : Editor σ) (i : Nat) (t : Token) :
    (e.replaceAt i t).2.ids = e.ids := by
  unfold replaceAt
  split
  · rfl
  · exact ids_persist _

theorem draws_commit (e : Editor σ) : e.ids.Draws (varIds e.committed) e.commit.ids := by
  have drawn := e.draws_entryToken
  unfold commit
  split
  · next blank =>
    rw [committed, if_pos blank]
    exact .nothing
  · next full =>
    rw [entryToken_committed full, Edit.varIds_cons]
    cases token : e.entryToken with
    | mk t d =>
      rw [token] at drawn
      simpa [clearEntry, onLookup, varIds] using drawn

theorem draws_choose (e : Editor σ) (s : Suggestion) :
    e.ids.Draws (varIds [(e.insertion s).1]) (e.choose s).ids := by
  have drawn := s.draws_insert e.ids
  rw [Edit.varIds_cons]
  simpa [choose, insertion, clearEntry, onLookup, varIds] using drawn

theorem draws_chooseFirst (e : Editor σ) :
    e.ids.Draws (varIds e.firstChoice) e.chooseFirst.ids := by
  unfold chooseFirst firstChoice
  split
  · next s rest found => simpa [found] using e.draws_choose s
  · next found => simpa [found, varIds] using IdSupply.Draws.nothing

theorem draws_typeOperator (e : Editor σ) (op : Operator) :
    e.ids.Draws (varIds (e.ended ++ [.operator op])) (e.typeOperator op).ids := by
  let emptied := { e with session := { e.session with entry := "" } }
  have drawn := emptied.draws_resolve e.session.entry
  have token : (emptied.resolve e.session.entry).1 = tokenFor e.lookup e.ids e.session.entry :=
    emptied.resolve_token _
  have supply : (e.typeOperator op).ids = (emptied.endTag e.session.entry).ids :=
    ids_append _ _
  have operator : varIds [Token.operator op] = [] := rfl
  rw [supply, Edit.varIds_append, operator, List.append_nil, endTag, ended]
  split
  · exact .nothing
  · rw [← token, Edit.varIds_cons]
    simpa [varIds] using drawn

theorem ids_evaluate (e : Editor σ) : e.evaluate.2.ids = e.commit.ids := by
  simp only [evaluate]
  split
  · split <;> rfl
  · rfl

/-! ## Who has which identifier -/

inductive Identifies (e : Editor σ) : List Edit → IdSupply → Prop where
  | drawn {ds : List Edit} {after : IdSupply} :
    e.ids.Draws (ds.flatMap Edit.brings) after → Identifies e ds after
  | kept {k : Nat} {id old : String} {v : Amount} {c : Option String} (name : String)
    (underway : e.session.renameAt = some k) (found : e.formula[k]? = some (.var id old v c)) :
    Identifies e [.replace k (.var id name .zero none)] e.ids

omit [Store σ] in
theorem identifies_appends {e : Editor σ} {ts : List Token} {after : IdSupply}
    (h : e.ids.Draws (varIds ts) after) : Identifies e (ts.map .append) after :=
  .drawn ((Edit.brings_appends ts).symm ▸ h)

omit [Store σ] in
theorem identifies_unnamed {e : Editor σ} {ds : List Edit} {after : IdSupply}
    (unnamed : ds.flatMap Edit.brings = []) (same : after = e.ids) : Identifies e ds after :=
  .drawn (unnamed ▸ same ▸ .nothing)

theorem identifies_operator (e : Editor σ) (c : Char) :
    Identifies e (e.actionEdits (.operator c)) (e.carryOut (.operator c)).2.ids := by
  have edits : e.actionEdits (.operator c) = (e.typed c).map .append := rfl
  simp only [carryOut, edits]
  unfold typed
  cases Operator.ofChar? c with
  | none => exact identifies_unnamed rfl rfl
  | some op => exact identifies_appends (e.draws_typeOperator op)

theorem identifies_replaceWith (e : Editor σ) (i : Nat) (s : Suggestion) :
    Identifies e (if i < e.formula.length then [.replace i (e.insertion s).1] else [])
      (e.replaceWith i s).2.ids := by
  have drawn := s.draws_insert e.ids
  have supply : (e.replaceWith i s).2.ids = (s.insert e.ids).2 := by
    have kept := ids_replaceAt (e.insertion s).2 i (e.insertion s).1
    unfold replaceWith
    simp only
    generalize (e.insertion s).2.replaceAt i (e.insertion s).1 = outcome at kept
    obtain ⟨fault | _, d⟩ := outcome <;> exact kept
  rw [supply]
  split
  · refine .drawn ?_
    rw [List.flatMap_singleton]
    exact drawn
  · exact .drawn drawn.unused

theorem identifies_applyName {e d : Editor σ} {k : Nat} {old : Token} (same : d.ids = e.ids)
    (underway : e.session.renameAt = some k) (found : e.formula[k]? = some old)
    (name : String) : Identifies e (nameEdits e.ids k old name) (d.applyName k old name).2.ids := by
  unfold applyName nameEdits
  split
  · exact identifies_unnamed rfl same
  · unfold renamed renamedToken
    cases Number.read? name with
    | some v => exact identifies_unnamed rfl ((ids_replaceAt d k _).trans same)
    | none =>
      cases old with
      | var id old v c =>
        simp only [ids_replaceAt, same]
        exact .kept name underway found
      | number v | operator op =>
        simp only [freshVar, ids_replaceAt, same]
        exact .drawn .used

theorem identifies_finishRename (e : Editor σ) :
    Identifies e e.renameEdits e.finishRename.2.ids := by
  cases underway : e.session.renameAt with
  | none =>
    simp only [finishRename, renameEdits, underway]
    exact identifies_unnamed rfl rfl
  | some k =>
    cases found : e.formula[k]? with
    | none =>
      simp only [finishRename, renameEdits, underway, found]
      exact identifies_unnamed rfl rfl
    | some old =>
      have same : e.cancelRename.ids = e.ids := rfl
      rw [finishRename_eq underway found]
      simp only [renameEdits, underway, found]
      exact identifies_applyName same underway found _

theorem identifies_finishOtherRename (e : Editor σ) (i : Nat) :
    Identifies e (e.otherRenameEdits i) (e.finishOtherRename i).2.ids := by
  unfold finishOtherRename otherRenameEdits
  cases underway : e.session.renameAt with
  | none =>
    simp only [renameEdits, underway, ite_self]
    exact identifies_unnamed rfl rfl
  | some k =>
    simp only [Option.some.injEq]
    split
    · exact identifies_unnamed rfl rfl
    · exact e.identifies_finishRename

theorem identifies_select (e : Editor σ) (i : Nat) :
    Identifies e (if i < e.formula.length then e.otherRenameEdits i else [])
      (e.select i).2.ids := by
  have finished := e.identifies_finishOtherRename i
  split
  · next inside =>
    rw [select, if_neg (Nat.not_le.mpr inside)]
    generalize e.finishOtherRename i = other at finished
    obtain ⟨fault | _, d⟩ := other <;> exact finished
  · next outside =>
    rw [select_of_outside (Nat.le_of_not_lt outside)]
    exact identifies_unnamed rfl rfl

omit [Store σ] in
theorem ids_deliverAfter (r : Except Fault Unit × Editor σ) :
    (deliverAfter r).2.ids = r.2.ids := by
  obtain ⟨fault | _, d⟩ := r <;> rfl

theorem identifies_startRename (e : Editor σ) (i : Nat) :
    Identifies e (e.actionEdits (.startRename i)) (e.carryOut (.startRename i)).2.ids := by
  simp only [actionEdits, carryOut]
  cases e.formula[i]? with
  | none => exact identifies_unnamed rfl rfl
  | some t =>
    simp only
    split
    · exact identifies_unnamed rfl rfl
    · have finished := e.identifies_finishOtherRename i
      rw [ids_deliverAfter, startRename]
      generalize e.finishOtherRename i = other at finished
      obtain ⟨fault | _, d⟩ := other <;> exact finished

theorem identifies_carryOut (e : Editor σ) (a : Action) :
    Identifies e (e.actionEdits a) (e.carryOut a).2.ids := by
  cases a with
  | type text =>
    refine identifies_unnamed rfl ?_
    simp only [carryOut, deliver, type]
    split <;> rfl
  | erase =>
    simp only [carryOut, ids_deliverAfter, erase, actionEdits]
    split
    · exact identifies_unnamed rfl (ids_removeAt _ _)
    · exact identifies_unnamed rfl rfl
  | operator c => exact e.identifies_operator c
  | commit => exact identifies_appends e.draws_commit
  | acceptFirst => exact identifies_appends e.draws_chooseFirst
  | choose s => exact identifies_appends (e.draws_choose s)
  | evaluate => exact identifies_appends (e.ids_evaluate ▸ e.draws_commit)
  | select i =>
    rw [carryOut, ids_deliverAfter]
    exact e.identifies_select i
  | replaceWith i s =>
    rw [carryOut, ids_deliverAfter]
    exact e.identifies_replaceWith i s
  | remove i =>
    simp only [carryOut, ids_deliverAfter, actionEdits]
    split
    · exact identifies_unnamed rfl (ids_removeAt _ _)
    · exact identifies_unnamed rfl (ids_removeAt _ _)
  | startRename i => exact e.identifies_startRename i
  | typeRename text =>
    refine identifies_unnamed rfl ?_
    simp only [carryOut, deliver, typeRename]
    split <;> rfl
  | finishRename | clickOutside =>
    rw [carryOut, ids_deliverAfter]
    exact e.identifies_finishRename
  | cancelRename => exact identifies_unnamed rfl rfl
  | clear => exact identifies_unnamed rfl e.ids_clear

end Editor

end TagFormula
