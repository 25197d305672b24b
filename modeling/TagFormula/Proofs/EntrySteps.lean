import TagFormula.Editor.Run

/-!
What the entry field does to a formula: tags come in at its end, and neither the selection nor a
rename is touched. Which tags come in depends on the entry, the lookup and the supply of
identifiers only.
-/
namespace TagFormula.Editor

variable {σ : Type}

/-- Only the lookup, the supply of identifiers and the log may differ. -/
structure SameButLookup (e e' : Editor σ) : Prop where
  formula : e'.formula = e.formula
  session : e'.session = e.session
  store : e'.store = e.store
  warnings : e'.warnings = e.warnings

namespace SameButLookup

theorem refl (e : Editor σ) : SameButLookup e e := ⟨rfl, rfl, rfl, rfl⟩

theorem trans {e d c : Editor σ} (first : SameButLookup e d) (second : SameButLookup d c) :
    SameButLookup e c :=
  ⟨second.formula.trans first.formula, second.session.trans first.session,
    second.store.trans first.store, second.warnings.trans first.warnings⟩

end SameButLookup

theorem sameButLookup_note (e : Editor σ) (n : Notice) : SameButLookup e (e.note n) :=
  ⟨rfl, rfl, rfl, rfl⟩

theorem sameButLookup_onLookup (e : Editor σ) (f : Lookup → Lookup) :
    SameButLookup e (e.onLookup f) :=
  ⟨rfl, rfl, rfl, rfl⟩

theorem sameButLookup_withLookup (e : Editor σ) (f : Lookup → Harvest × Lookup) :
    SameButLookup e (e.withLookup f).2 := by
  unfold withLookup
  split
  · exact .refl e
  · exact ⟨rfl, rfl, rfl, rfl⟩

theorem sameButLookup_freshVar (e : Editor σ) (name : String) :
    SameButLookup e (e.freshVar name).2 :=
  ⟨rfl, rfl, rfl, rfl⟩

theorem sameButLookup_insertion (e : Editor σ) (s : Suggestion) :
    SameButLookup e (e.insertion s).2 :=
  ⟨rfl, rfl, rfl, rfl⟩

theorem sameButLookup_searchBest (e : Editor σ) (text : String) :
    SameButLookup e (e.searchBest text).2 := by
  unfold searchBest
  split
  · exact .refl e
  · split
    · exact ⟨rfl, rfl, rfl, rfl⟩
    · exact ⟨rfl, rfl, rfl, rfl⟩

theorem sameButLookup_resolve (e : Editor σ) (text : String) :
    SameButLookup e (e.resolve text).2 := by
  have searched := e.sameButLookup_searchBest (Text.trim text)
  unfold resolve
  simp only
  split
  · exact .refl e
  · split
    · exact e.sameButLookup_freshVar _
    · split
      · next s d found =>
        rw [found] at searched
        exact searched.trans (d.sameButLookup_insertion s)
      · next d found =>
        rw [found] at searched
        exact searched.trans (d.sameButLookup_freshVar _)

theorem sameButLookup_entryToken (e : Editor σ) : SameButLookup e e.entryToken.2 := by
  unfold entryToken
  split
  · exact e.sameButLookup_insertion _
  · exact e.sameButLookup_resolve _

/-! ## What a text stands for -/

def found? (lookup : Option Lookup) (text : String) : Option Suggestion :=
  match lookup with
  | none => none
  | some l =>
    match (l.searchNow text).1 with
    | .ok found => Suggestion.best? text found
    | .error _ => none

def tokenFor (lookup : Option Lookup) (ids : IdSupply) (text : String) : Token :=
  match Number.read? (Text.trim text) with
  | some v => .ofFloat v
  | none =>
    if (Text.trim text).isEmpty then .var ids.id (Text.trim text) .zero none
    else
      match found? lookup (Text.trim text) with
      | some s => (s.insert ids).1
      | none => .var ids.id (Text.trim text) .zero none

theorem searchBest_spec (e : Editor σ) (text : String) :
    (e.searchBest text).1 = found? e.lookup text ∧ (e.searchBest text).2.ids = e.ids := by
  unfold searchBest found?
  cases e.lookup with
  | none => exact ⟨rfl, rfl⟩
  | some l =>
    simp only
    rcases l.searchNow text with ⟨fault | found, after⟩
    · exact ⟨rfl, rfl⟩
    · exact ⟨rfl, rfl⟩

theorem resolve_token (e : Editor σ) (text : String) :
    (e.resolve text).1 = tokenFor e.lookup e.ids text := by
  obtain ⟨best, ids⟩ := e.searchBest_spec (Text.trim text)
  unfold resolve tokenFor
  cases literal : Number.read? (Text.trim text) with
  | some v => simp only [literal]
  | none =>
    simp only [literal, ← best]
    split
    · rfl
    · rcases searched : e.searchBest (Text.trim text) with ⟨_ | s, d⟩
      · simp only [searched] at ids
        simp only [freshVar, ids]
      · simp only [searched] at ids
        simp only [insertion, ids]

/-! ## Tags that come in -/

/-- These tags are added at the end, and what is selected or renamed stays so. -/
structure Appends (ts : List Token) (e e' : Editor σ) : Prop where
  formula : e'.formula = e.formula ++ ts
  selection : e'.session.selection = e.session.selection
  renameAt : e'.session.renameAt = e.session.renameAt
  renameText : e'.session.renameText = e.session.renameText

namespace Appends

theorem trans {ts us : List Token} {e d c : Editor σ} (first : Appends ts e d)
    (second : Appends us d c) : Appends (ts ++ us) e c where
  formula := by rw [second.formula, first.formula, List.append_assoc]
  selection := second.selection.trans first.selection
  renameAt := second.renameAt.trans first.renameAt
  renameText := second.renameText.trans first.renameText

theorem of_same {e e' : Editor σ} (h : SameButLookup e e') : Appends [] e e' where
  formula := by rw [h.formula, List.append_nil]
  selection := by rw [h.session]
  renameAt := by rw [h.session]
  renameText := by rw [h.session]

theorem after_same {ts : List Token} {e d c : Editor σ} (h : SameButLookup e d)
    (added : Appends ts d c) : Appends ts e c := by
  simpa using (of_same h).trans added

end Appends

theorem appends_clearEntry (e : Editor σ) : Appends [] e e.clearEntry :=
  ⟨by simp [clearEntry, onLookup], rfl, rfl, rfl⟩

theorem appends_append [Store σ] (e : Editor σ) (t : Token) : Appends [t] e (e.append t) := by
  refine ⟨formula_append e t, ?_, ?_, ?_⟩ <;> simp [append]

theorem appends_type (e : Editor σ) (text : String) : Appends [] e (e.type text) := by
  simp only [type]
  split
  · exact ⟨by simp [onLookup], rfl, rfl, rfl⟩
  · exact ⟨by simp [onLookup], rfl, rfl, rfl⟩

def committed (e : Editor σ) : List Token :=
  if Text.isBlankText e.session.entry then []
  else
    match e.candidates with
    | s :: _ => [(e.insertion s).1]
    | [] => [tokenFor e.lookup e.ids e.session.entry]

theorem entryToken_committed {e : Editor σ} (full : ¬ Text.isBlankText e.session.entry = true) :
    e.committed = [e.entryToken.1] := by
  unfold committed entryToken
  rw [if_neg full]
  cases e.candidates with
  | nil => simp only [resolve_token]
  | cons s rest => rfl

theorem appends_commit [Store σ] (e : Editor σ) : Appends e.committed e e.commit := by
  have same := e.sameButLookup_entryToken
  unfold commit
  split
  · next blank =>
    rw [committed, if_pos blank]
    exact .of_same (.refl e)
  · next full =>
    rw [entryToken_committed full]
    cases token : e.entryToken with
    | mk t d =>
      rw [token] at same
      exact .after_same same ((d.appends_append t).trans (appends_clearEntry _))

theorem appends_choose [Store σ] (e : Editor σ) (s : Suggestion) :
    Appends [(e.insertion s).1] e (e.choose s) := by
  have added := ((e.insertion s).2.appends_append (e.insertion s).1).trans (appends_clearEntry _)
  exact .after_same (e.sameButLookup_insertion s) added

def firstChoice (e : Editor σ) : List Token :=
  (e.candidates.head?.map fun s => (e.insertion s).1).toList

theorem appends_chooseFirst [Store σ] (e : Editor σ) :
    Appends e.firstChoice e e.chooseFirst := by
  unfold chooseFirst firstChoice
  split
  · next s rest found =>
    simpa [found] using e.appends_choose s
  · next found =>
    simpa [found] using Appends.of_same (.refl e)

def ended (e : Editor σ) : List Token :=
  if Text.isBlankText e.session.entry then []
  else [tokenFor e.lookup e.ids e.session.entry]

theorem appends_endTag [Store σ] (e : Editor σ) (text : String) :
    Appends (if Text.isBlankText text then [] else [tokenFor e.lookup e.ids text]) e
      (e.endTag text) := by
  have same := e.sameButLookup_resolve text
  have token := e.resolve_token text
  unfold endTag
  split
  · exact .of_same (.refl e)
  · cases resolved : e.resolve text with
    | mk t d =>
      rw [resolved] at same token
      exact token ▸ .after_same same (d.appends_append t)

theorem appends_typeOperator [Store σ] (e : Editor σ) (op : Operator) :
    Appends (e.ended ++ [.operator op]) e (e.typeOperator op) := by
  let emptied := { e with session := { e.session with entry := "" } }
  have empties : Appends [] e emptied := ⟨by simp [emptied], rfl, rfl, rfl⟩
  have tag := emptied.appends_endTag e.session.entry
  have more := (empties.trans tag).trans (appends_append _ (.operator op))
  have all := more.trans (appends_clearEntry _)
  rw [List.nil_append, List.append_nil] at all
  exact all

theorem appends_evaluate [Store σ] (e : Editor σ) : Appends e.committed e e.evaluate.2 := by
  have added := e.appends_commit
  have noted : SameButLookup e.commit e.evaluate.2 := by
    simp only [evaluate]
    split
    · split
      · exact sameButLookup_note _ _
      · exact (sameButLookup_note _ _).trans (sameButLookup_note _ _)
    · exact sameButLookup_note _ _
  simpa using added.trans (.of_same noted)

def typed (e : Editor σ) (c : Char) : List Token :=
  match Operator.ofChar? c with
  | some op => e.ended ++ [.operator op]
  | none => []

def entered (e : Editor σ) : Action → List Token
  | .operator c => e.typed c
  | .commit | .evaluate => e.committed
  | .acceptFirst => e.firstChoice
  | .choose s => [(e.insertion s).1]
  | _ => []

end TagFormula.Editor
