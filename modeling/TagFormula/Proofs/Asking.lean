import TagFormula.Proofs.EntrySteps
import TagFormula.Proofs.WatchedLookup

/-!
What an editor asks of its lookup. Each event of the editor comes down to a row of events of the
lookup: a new text is a demand or a cancellation, a tag that is resolved is a direct search, and
an entry that is emptied is a cancellation. So whatever holds of a lookup after every run holds of
the one an editor has; and with nothing in the entry field nothing is expected and no candidates
are kept.
-/
namespace TagFormula

namespace Editor

variable {σ : Type}

/-! ## Nothing asked -/

structure Undisturbed (e e' : Editor σ) : Prop where
  lookup : e'.lookup = e.lookup
  entry : e'.session.entry = e.session.entry

namespace Undisturbed

theorem refl (e : Editor σ) : Undisturbed e e := ⟨rfl, rfl⟩

theorem trans {e d c : Editor σ} (first : Undisturbed e d) (second : Undisturbed d c) :
    Undisturbed e c :=
  ⟨second.lookup.trans first.lookup, second.entry.trans first.entry⟩

theorem candidates {e e' : Editor σ} (h : Undisturbed e e') : e'.candidates = e.candidates := by
  unfold Editor.candidates rawCandidates
  rw [h.lookup, h.entry]

end Undisturbed

theorem undisturbed_note (e : Editor σ) (n : Notice) : Undisturbed e (e.note n) := ⟨rfl, rfl⟩

theorem undisturbed_append [Store σ] (e : Editor σ) (t : Token) : Undisturbed e (e.append t) := by
  constructor <;> simp [append]

theorem undisturbed_removeAt [Store σ] (e : Editor σ) (i : Nat) :
    Undisturbed e (e.removeAt i).2 := by
  unfold removeAt
  split
  · exact .refl e
  · constructor <;> simp [Session.afterRemoval]

theorem undisturbed_replaceAt [Store σ] (e : Editor σ) (i : Nat) (t : Token) :
    Undisturbed e (e.replaceAt i t).2 := by
  unfold replaceAt
  split
  · exact .refl e
  · constructor <;> simp

theorem undisturbed_clear [Store σ] (e : Editor σ) : Undisturbed e e.clear := by
  constructor <;> simp [clear, Session.withoutRename]

theorem undisturbed_load [Store σ] (e : Editor σ) : Undisturbed e e.load.2 := by
  unfold load
  split
  · exact .refl e
  · split
    · split <;> exact ⟨rfl, rfl⟩
    · exact ⟨rfl, rfl⟩
    · exact ⟨rfl, rfl⟩
    · exact ⟨rfl, rfl⟩

theorem undisturbed_applyName [Store σ] (e : Editor σ) (i : Nat) (old : Token) (name : String) :
    Undisturbed e (e.applyName i old name).2 := by
  have token : Undisturbed e (e.renamed old name).2 := by
    unfold renamed
    split <;> exact ⟨rfl, rfl⟩
  unfold applyName
  split
  · exact .refl e
  · generalize e.renamed old name = made at token
    obtain ⟨t, d⟩ := made
    exact token.trans (d.undisturbed_replaceAt i t)

theorem undisturbed_finishRename [Store σ] (e : Editor σ) : Undisturbed e e.finishRename.2 := by
  have closed : Undisturbed e { e with session := e.session.withoutRename } := ⟨rfl, rfl⟩
  unfold finishRename
  split
  · exact .refl e
  · simp only
    split
    · exact closed
    · exact closed.trans (undisturbed_applyName _ _ _ _)

theorem undisturbed_finishOtherRename [Store σ] (e : Editor σ) (i : Nat) :
    Undisturbed e (e.finishOtherRename i).2 := by
  unfold finishOtherRename
  split
  · split
    · exact .refl e
    · exact e.undisturbed_finishRename
  · exact .refl e

theorem undisturbed_select [Store σ] (e : Editor σ) (i : Nat) : Undisturbed e (e.select i).2 := by
  have finished := e.undisturbed_finishOtherRename i
  unfold select
  split
  · exact .refl e
  · generalize e.finishOtherRename i = other at finished
    obtain ⟨fault | _, d⟩ := other
    · exact finished
    · exact finished.trans ⟨rfl, rfl⟩

theorem undisturbed_startRename [Store σ] (e : Editor σ) (i : Nat) (label : String) :
    Undisturbed e (e.startRename i label).2 := by
  have finished := e.undisturbed_finishOtherRename i
  unfold startRename
  generalize e.finishOtherRename i = other at finished
  obtain ⟨fault | _, d⟩ := other
  · exact finished
  · exact finished.trans ⟨rfl, rfl⟩

theorem undisturbed_replaceWith [Store σ] (e : Editor σ) (i : Nat) (s : Suggestion) :
    Undisturbed e (e.replaceWith i s).2 := by
  have inserted : Undisturbed e (e.insertion s).2 := ⟨rfl, rfl⟩
  have replaced := inserted.trans ((e.insertion s).2.undisturbed_replaceAt i (e.insertion s).1)
  unfold replaceWith
  simp only
  generalize (e.insertion s).2.replaceAt i (e.insertion s).1 = outcome at replaced
  obtain ⟨fault | _, d⟩ := outcome
  · exact replaced
  · exact replaced.trans ⟨rfl, rfl⟩

theorem undisturbed_erase [Store σ] (e : Editor σ) : Undisturbed e e.erase.2 := by
  unfold erase
  split
  · exact e.undisturbed_removeAt _
  · exact .refl e

theorem undisturbed_typeRename (e : Editor σ) (text : String) :
    Undisturbed e (e.typeRename text) := by
  unfold typeRename
  split <;> exact ⟨rfl, rfl⟩

/-! ## What is asked -/

structure Asks (ys : List Lookup.Event) (entry : String) (e e' : Editor σ) : Prop where
  lookup : e'.lookup = e.lookup.map fun l => (l.run ys).2
  entry : e'.session.entry = entry

namespace Asks

theorem of_undisturbed {e e' : Editor σ} (h : Undisturbed e e') : Asks [] e.session.entry e e' where
  lookup := h.lookup.trans Option.map_id'.symm
  entry := h.entry

theorem trans {ys zs : List Lookup.Event} {s t : String} {e d c : Editor σ}
    (first : Asks ys s e d) (second : Asks zs t d c) : Asks (ys ++ zs) t e c where
  lookup := by
    rw [second.lookup, first.lookup, Option.map_map]
    congr 1
    funext l
    exact (congrArg Prod.snd (l.run_append ys zs)).symm
  entry := second.entry

theorem then_undisturbed {ys : List Lookup.Event} {s : String} {e d c : Editor σ}
    (first : Asks ys s e d) (after : Undisturbed d c) : Asks ys s e c := by
  have all := first.trans (of_undisturbed after)
  rw [List.append_nil, first.entry] at all
  exact all

end Asks

theorem asks_onLookup (e : Editor σ) {f : Lookup → Lookup} {y : Lookup.Event}
    (same : ∀ l, f l = (l.perform y).2) : Asks [y] e.session.entry e (e.onLookup f) where
  lookup := by
    have all : f = fun l => (l.run [y]).2 := funext same
    rw [all]
    rfl
  entry := rfl

theorem asks_withLookup (e : Editor σ) {f : Lookup → Harvest × Lookup} {y : Lookup.Event}
    (same : ∀ l, (f l).2 = (l.perform y).2) :
    Asks [y] e.session.entry e (e.withLookup f).2 := by
  unfold withLookup
  cases lookup : e.lookup with
  | none => exact ⟨by rw [lookup]; rfl, rfl⟩
  | some l => exact ⟨by rw [lookup]; exact congrArg some (same l), rfl⟩

theorem asks_clearEntry (e : Editor σ) : Asks [.cancel] "" e e.clearEntry :=
  Asks.mk rfl rfl

def resolving (text : String) : List Lookup.Event :=
  if (Number.read? (Text.trim text)).isSome || (Text.trim text).isEmpty then []
  else [.searchNow (Text.trim text)]

theorem unseen_resolving (text : String) : ∀ y ∈ resolving text, y.isUnseen = true := by
  unfold resolving
  split
  · exact List.forall_mem_nil _
  · exact List.forall_mem_singleton.mpr rfl

theorem asks_searchBest (e : Editor σ) (text : String) :
    Asks [.searchNow text] e.session.entry e (e.searchBest text).2 := by
  unfold searchBest
  cases lookup : e.lookup with
  | none => exact ⟨by rw [lookup]; rfl, rfl⟩
  | some l =>
    have searched : (l.run [.searchNow text]).2 = (l.searchNow text).2 := rfl
    rcases found : l.searchNow text with ⟨fault | list, after⟩
    · exact ⟨by simp [lookup, searched, found], by simp [found]⟩
    · exact ⟨by simp [lookup, searched, found], by simp [found]⟩

theorem asks_resolve (e : Editor σ) (text : String) :
    Asks (resolving text) e.session.entry e (e.resolve text).2 := by
  have searched := e.asks_searchBest (Text.trim text)
  unfold resolve resolving
  simp only
  cases Number.read? (Text.trim text) with
  | some v => exact .of_undisturbed (.refl e)
  | none =>
    simp only [Option.isSome_none, Bool.false_or]
    split
    · exact .of_undisturbed ⟨rfl, rfl⟩
    · generalize e.searchBest (Text.trim text) = result at searched
      obtain ⟨_ | s, d⟩ := result
      · exact searched.then_undisturbed ⟨rfl, rfl⟩
      · exact searched.then_undisturbed ⟨rfl, rfl⟩

def tokenAsks (e : Editor σ) : List Lookup.Event :=
  if e.candidates.isEmpty then resolving e.session.entry else []

theorem asks_entryToken (e : Editor σ) : Asks e.tokenAsks e.session.entry e e.entryToken.2 := by
  unfold entryToken tokenAsks
  cases e.candidates with
  | nil =>
    rw [List.isEmpty_nil, if_pos rfl]
    exact e.asks_resolve e.session.entry
  | cons s rest =>
    rw [List.isEmpty_cons, if_neg Bool.false_ne_true]
    exact .of_undisturbed ⟨rfl, rfl⟩

def commitAsks (e : Editor σ) : List Lookup.Event :=
  if Text.isBlankText e.session.entry then [] else e.tokenAsks ++ [.cancel]

def commitLeaves (e : Editor σ) : String :=
  if Text.isBlankText e.session.entry then e.session.entry else ""

theorem asks_commit [Store σ] (e : Editor σ) : Asks e.commitAsks e.commitLeaves e e.commit := by
  have token := e.asks_entryToken
  unfold commit commitAsks commitLeaves
  split
  · exact .of_undisturbed (.refl e)
  · generalize e.entryToken = made at token
    obtain ⟨t, d⟩ := made
    exact (token.then_undisturbed (d.undisturbed_append t)).trans (asks_clearEntry _)

theorem asks_choose [Store σ] (e : Editor σ) (s : Suggestion) :
    Asks [.cancel] "" e (e.choose s) := by
  have inserted : Undisturbed e (e.insertion s).2 := ⟨rfl, rfl⟩
  have added := inserted.trans ((e.insertion s).2.undisturbed_append (e.insertion s).1)
  exact (Asks.of_undisturbed added).trans (asks_clearEntry _)

theorem asks_endTag [Store σ] (e : Editor σ) (text : String) :
    Asks (if Text.isBlankText text then [] else resolving text) e.session.entry e
      (e.endTag text) := by
  have resolved := e.asks_resolve text
  unfold endTag
  split
  · exact .of_undisturbed (.refl e)
  · generalize e.resolve text = made at resolved
    obtain ⟨t, d⟩ := made
    exact resolved.then_undisturbed (d.undisturbed_append t)

def endAsks (e : Editor σ) : List Lookup.Event :=
  (if Text.isBlankText e.session.entry then [] else resolving e.session.entry) ++ [.cancel]

theorem asks_typeOperator [Store σ] (e : Editor σ) (op : Operator) :
    Asks e.endAsks "" e (e.typeOperator op) := by
  let emptied := { e with session := { e.session with entry := "" } }
  have empties : Asks [] "" e emptied := ⟨Option.map_id'.symm, rfl⟩
  have ended := empties.trans (emptied.asks_endTag e.session.entry)
  have operator := ended.then_undisturbed (undisturbed_append _ (.operator op))
  exact operator.trans (asks_clearEntry _)

theorem asks_evaluate [Store σ] (e : Editor σ) :
    Asks e.commitAsks e.commitLeaves e e.evaluate.2 := by
  have noted : Undisturbed e.commit e.evaluate.2 := by
    simp only [evaluate]
    split
    · split
      · exact undisturbed_note _ _
      · exact (undisturbed_note _ _).trans (undisturbed_note _ _)
    · exact undisturbed_note _ _
  exact e.asks_commit.then_undisturbed noted

def typeAsks (text : String) : List Lookup.Event :=
  if (Text.trim text).isEmpty || (Operator.ofText? (Text.trim text)).isSome then [.cancel]
  else [.request (Text.trim text)]

theorem asks_type (e : Editor σ) (text : String) : Asks (typeAsks text) text e (e.type text) := by
  simp only [type, typeAsks]
  split
  · exact ⟨rfl, rfl⟩
  · exact ⟨rfl, rfl⟩

/-! ## Events -/

def actionAsks (e : Editor σ) : Action → List Lookup.Event
  | .type text => typeAsks text
  | .operator c => if (Operator.ofChar? c).isSome then e.endAsks else []
  | .commit | .evaluate => e.commitAsks
  | .acceptFirst => if e.candidates.isEmpty then [] else [.cancel]
  | .choose _ => [.cancel]
  | _ => []

def actionLeaves (e : Editor σ) : Action → String
  | .type text => text
  | .operator c => if (Operator.ofChar? c).isSome then "" else e.session.entry
  | .commit | .evaluate => e.commitLeaves
  | .acceptFirst => if e.candidates.isEmpty then e.session.entry else ""
  | .choose _ => ""
  | _ => e.session.entry

theorem actionAsks_of_known {e : Editor σ} {c : Char} {op : Operator}
    (known : Operator.ofChar? c = some op) : e.actionAsks (.operator c) = e.endAsks := by
  show (if (Operator.ofChar? c).isSome then e.endAsks else []) = e.endAsks
  rw [known]
  rfl

theorem actionLeaves_of_known {e : Editor σ} {c : Char} {op : Operator}
    (known : Operator.ofChar? c = some op) : e.actionLeaves (.operator c) = "" := by
  show (if (Operator.ofChar? c).isSome then "" else e.session.entry) = ""
  rw [known]
  rfl

/-- What an event of the editor is to its lookup. -/
def asking (e : Editor σ) : Event → List Lookup.Event
  | .act a => e.actionAsks a
  | .resolve text => resolving text
  | .harvest => [.harvest]
  | .await => [.await]
  | .take count => [.take count]
  | .serveNext => [.serveNext]
  | .drain => [.drain]
  | .advanceTo time => [.advanceTo time]
  | _ => []

def leaves (e : Editor σ) : Event → String
  | .act a => e.actionLeaves a
  | _ => e.session.entry

theorem undisturbed_deliver (effects : List Effect) (e : Editor σ) :
    Undisturbed e (deliver effects e).2 := ⟨rfl, rfl⟩

theorem undisturbed_deliverAfter {e : Editor σ} {r : Except Fault Unit × Editor σ}
    (h : Undisturbed e r.2) : Undisturbed e (deliverAfter r).2 := by
  obtain ⟨fault | _, d⟩ := r
  · exact h
  · exact h.trans (undisturbed_deliver [] d)

theorem asks_operator [Store σ] (e : Editor σ) (c : Char) :
    Asks (e.actionAsks (.operator c)) (e.actionLeaves (.operator c)) e
      (e.carryOut (.operator c)).2 := by
  unfold actionAsks actionLeaves carryOut
  simp only
  cases Operator.ofChar? c with
  | none => exact .of_undisturbed (undisturbed_deliver [] e)
  | some op => exact (e.asks_typeOperator op).then_undisturbed (undisturbed_deliver [] _)

theorem asks_chooseFirst [Store σ] (e : Editor σ) :
    Asks (e.actionAsks .acceptFirst) (e.actionLeaves .acceptFirst) e e.chooseFirst := by
  unfold actionAsks actionLeaves chooseFirst
  cases e.candidates with
  | nil => exact .of_undisturbed (.refl e)
  | cons s rest => exact e.asks_choose s

theorem undisturbed_carryOut_startRename [Store σ] (e : Editor σ) (i : Nat) :
    Undisturbed e (e.carryOut (.startRename i)).2 := by
  unfold carryOut
  simp only
  split
  · exact .refl e
  · split
    · exact ⟨rfl, rfl⟩
    · exact undisturbed_deliverAfter (e.undisturbed_startRename i _)

theorem asks_carryOut [Store σ] (e : Editor σ) (a : Action) :
    Asks (e.actionAsks a) (e.actionLeaves a) e (e.carryOut a).2 := by
  cases a with
  | type text => exact (e.asks_type text).then_undisturbed (undisturbed_deliver [] _)
  | erase => exact .of_undisturbed (undisturbed_deliverAfter e.undisturbed_erase)
  | operator c => exact e.asks_operator c
  | commit => exact e.asks_commit.then_undisturbed (undisturbed_deliver [] _)
  | acceptFirst => exact e.asks_chooseFirst.then_undisturbed (undisturbed_deliver [] _)
  | choose s => exact (e.asks_choose s).then_undisturbed (undisturbed_deliver [] _)
  | evaluate => exact e.asks_evaluate.then_undisturbed (undisturbed_deliver _ _)
  | select i => exact .of_undisturbed (undisturbed_deliverAfter (e.undisturbed_select i))
  | replaceWith i s =>
    exact .of_undisturbed (undisturbed_deliverAfter (e.undisturbed_replaceWith i s))
  | remove i => exact .of_undisturbed (undisturbed_deliverAfter (e.undisturbed_removeAt i))
  | startRename i => exact .of_undisturbed (e.undisturbed_carryOut_startRename i)
  | typeRename text =>
    exact .of_undisturbed ((e.undisturbed_typeRename text).trans (undisturbed_deliver [] _))
  | finishRename => exact .of_undisturbed (undisturbed_deliverAfter e.undisturbed_finishRename)
  | cancelRename => exact .of_undisturbed ⟨rfl, rfl⟩
  | clickOutside => exact .of_undisturbed (undisturbed_deliverAfter e.undisturbed_finishRename)
  | clear => exact .of_undisturbed (e.undisturbed_clear.trans (undisturbed_deliver [] _))

theorem asks_perform [Store σ] (e : Editor σ) (x : Event) :
    Asks (e.asking x) (e.leaves x) e (e.perform x).2 := by
  cases x with
  | act a =>
    -- an action is noted first, and what it asks does not depend on the log
    have asked := (e.note (.action a)).asks_carryOut a
    have same : (e.note (.action a)).actionAsks a = e.actionAsks a ∧
        (e.note (.action a)).actionLeaves a = e.actionLeaves a := by cases a <;> exact ⟨rfl, rfl⟩
    rw [same.1, same.2] at asked
    exact ⟨asked.lookup, asked.entry⟩
  | append t => exact .of_undisturbed (e.undisturbed_append t)
  | removeAt i => exact .of_undisturbed (e.undisturbed_removeAt i)
  | replaceAt i t => exact .of_undisturbed (e.undisturbed_replaceAt i t)
  | resolve text =>
    simp only [perform]
    exact e.asks_resolve text
  | load => exact .of_undisturbed e.undisturbed_load
  | takeWarnings => exact .of_undisturbed ⟨rfl, rfl⟩
  | harvest => exact e.asks_withLookup fun _ => rfl
  | await => exact e.asks_withLookup fun _ => rfl
  | take count => exact e.asks_onLookup fun _ => rfl
  | serveNext => exact e.asks_onLookup fun _ => rfl
  | drain => exact e.asks_onLookup fun _ => rfl
  | advanceTo time => exact e.asks_onLookup fun _ => rfl

theorem lookup_perform_of_none [Store σ] {e : Editor σ} (alone : e.lookup = none) (x : Event) :
    (e.perform x).2.lookup = none := by
  rw [(e.asks_perform x).lookup, alone]
  rfl

end Editor

/-! ## Nothing expected -/

namespace Lookup

/-- Nothing is expected, and no candidates are kept. -/
def Quiet (l : Lookup) : Prop := l.view.expected = none ∧ l.view.candidates = []

namespace Quiet

variable {l : Lookup}

theorem of_view {m : Lookup} (h : l.Quiet) (same : m.view = l.view) : m.Quiet := by
  rw [Quiet, same]
  exact h

theorem cancel (l : Lookup) : l.cancel.Quiet := ⟨rfl, rfl⟩

theorem harvest (h : l.Quiet) : l.harvest.1 = .nothing ∧ l.harvest.2.Quiet := by
  have step := l.harvests
  generalize l.harvest = outcome at step
  obtain ⟨brought, after⟩ := outcome
  cases step with
  | found waiting => cases h.1.symm.trans waiting
  | failed waiting => cases h.1.symm.trans waiting
  | late waiting => cases h.1.symm.trans waiting
  | nothing => exact ⟨rfl, h⟩

theorem await (h : l.Quiet) : l.await.2.Quiet := by
  have drained := (h.of_view l.view_drain).harvest
  unfold Lookup.await
  generalize l.drain.harvest = outcome at drained
  obtain ⟨brought, after⟩ := outcome
  obtain ⟨rfl, quiet⟩ := drained
  have settled : after.expected = none := quiet.1
  simp only [settled]
  exact quiet

theorem after_cancel (l : Lookup) (ys : List Event) : (l.run (ys ++ [.cancel])).2.Quiet := by
  rw [run_append]
  exact cancel _

end Quiet

end Lookup

namespace Editor

variable {σ : Type}

open Lookup (Quiet)

/-- A text no suggestions are asked for: none, or a lone operator. -/
def Unasked (wanted : String) : Prop :=
  wanted = "" ∨ ∃ op : Operator, wanted = String.singleton op.symbol

theorem unasked_iff {wanted : String} :
    Unasked wanted ↔ (wanted.isEmpty || (Operator.ofText? wanted).isSome) = true := by
  simp only [Unasked, Bool.or_eq_true, String.isEmpty_iff, Option.isSome_iff_exists,
    Operator.ofText?_eq_some_iff]

inductive Asked (entry : String) : List Lookup.Event → String → Prop where
  | nothing {ys : List Lookup.Event} (unseen : ∀ y ∈ ys, y.isUnseen = true) :
      Asked entry ys entry
  | cancelled (ys : List Lookup.Event) {text : String} (unasked : Unasked (Text.trim text)) :
      Asked entry (ys ++ [.cancel]) text
  | requested {text : String} (wanted : ¬ Unasked (Text.trim text)) :
      Asked entry [.request (Text.trim text)] text
  | harvested {y : Lookup.Event} (harvests : y = .harvest ∨ y = .await) : Asked entry [y] entry

theorem asked_none (entry : String) : Asked entry [] entry := .nothing (List.forall_mem_nil _)

theorem asked_unseen (entry : String) {y : Lookup.Event} (unseen : y.isUnseen = true) :
    Asked entry [y] entry := .nothing (List.forall_mem_singleton.mpr unseen)

theorem asked_emptied (entry : String) (ys : List Lookup.Event) :
    Asked entry (ys ++ [.cancel]) "" := .cancelled ys (.inl rfl)

theorem asked_type (entry text : String) : Asked entry (typeAsks text) text := by
  unfold typeAsks
  split
  · next unasked => exact .cancelled [] (unasked_iff.mpr unasked)
  · next wanted => exact .requested fun unasked => wanted (unasked_iff.mp unasked)

theorem asked_commit (e : Editor σ) : Asked e.session.entry e.commitAsks e.commitLeaves := by
  unfold commitAsks commitLeaves
  split
  · exact asked_none _
  · exact asked_emptied _ _

theorem asked_operator (e : Editor σ) (c : Char) :
    Asked e.session.entry (e.actionAsks (.operator c)) (e.actionLeaves (.operator c)) := by
  unfold actionAsks actionLeaves
  simp only
  split
  · exact asked_emptied _ _
  · exact asked_none _

theorem asked_acceptFirst (e : Editor σ) :
    Asked e.session.entry (e.actionAsks .acceptFirst) (e.actionLeaves .acceptFirst) := by
  unfold actionAsks actionLeaves
  simp only
  split
  · exact asked_none _
  · exact asked_emptied _ []

/-- Nothing but the entry field makes an editor ask. -/
theorem asked (e : Editor σ) (x : Event) : Asked e.session.entry (e.asking x) (e.leaves x) := by
  cases x with
  | act a =>
    cases a with
    | type text => exact asked_type _ text
    | operator c => exact e.asked_operator c
    | commit => exact e.asked_commit
    | evaluate => exact e.asked_commit
    | acceptFirst => exact e.asked_acceptFirst
    | choose s => exact asked_emptied _ []
    | _ => exact asked_none _
  | resolve text => exact .nothing (unseen_resolving text)
  | harvest => exact .harvested (.inl rfl)
  | await => exact .harvested (.inr rfl)
  | take count => exact asked_unseen _ rfl
  | serveNext => exact asked_unseen _ rfl
  | drain => exact asked_unseen _ rfl
  | advanceTo time => exact asked_unseen _ rfl
  | _ => exact asked_none _

/-- With nothing in the entry field the lookup is quiet, if it was before. -/
theorem quiet_asked {entry text : String} {l : Lookup} {ys : List Lookup.Event}
    (h : entry = "" → l.Quiet) (asked : Asked entry ys text) (empty : text = "") :
    (l.run ys).2.Quiet := by
  cases asked with
  | nothing unseen => exact (h empty).of_view (l.view_run_of_isUnseen unseen)
  | cancelled ys => exact Quiet.after_cancel l ys
  | requested wanted =>
    rw [empty] at wanted
    exact (wanted (.inl rfl)).elim
  | harvested harvests =>
    rcases harvests with rfl | rfl
    · exact (h empty).harvest.2
    · exact (h empty).await

/-! ## Runs -/

structure Follows (source : Source) (delay : Nat) (ys : List Lookup.Event) (e : Editor σ) :
    Prop where
  lookup : e.lookup = some ((Lookup.new source delay).run ys).2
  quiet : e.session.entry = "" → ((Lookup.new source delay).run ys).2.Quiet

variable {source : Source} {delay : Nat} {ys : List Lookup.Event} {e : Editor σ}

theorem follows_new (source : Source) (delay : Nat) (ids : IdSupply) (store : Option σ) :
    Follows source delay [] (Editor.new ids (some (.new source delay)) store) :=
  ⟨rfl, fun _ => ⟨rfl, rfl⟩⟩

theorem Follows.perform [Store σ] (h : Follows source delay ys e) (x : Event) :
    Follows source delay (ys ++ e.asking x) (Editor.perform e x).2 := by
  obtain ⟨lookup, entry⟩ := e.asks_perform x
  constructor
  · rw [lookup, h.lookup, Lookup.run_append]
    rfl
  · intro empty
    rw [Lookup.run_append]
    exact quiet_asked h.quiet (e.asked x) (entry.symm.trans empty)

theorem Follows.run [Store σ] (h : Follows source delay ys e) (xs : List Event) :
    ∃ zs, Follows source delay zs (e.run xs).2 := by
  refine run_keeps (P := fun e => ∃ zs, Follows source delay zs e) ?_ ⟨ys, h⟩ xs
  rintro e x ⟨zs, follows⟩
  exact ⟨_, follows.perform x⟩

end Editor

end TagFormula
