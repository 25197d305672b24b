import TagFormula.Proofs.FileWrites
import TagFormula.Proofs.Saving
import TagFormula.Storage.Memory

/-!
A store that logs what it is asked to save. Over every run of an editor the log has one entry for
each mutation of the formula, in order, with the formula as it stood right after it. Saves may
fail and the store may be out of order for a while; what it holds is the formula of the last save
that went through, and the current one if no later save failed.
-/
namespace TagFormula

namespace Store

variable {σ : Type} [Store σ]

structure Logged (σ : Type) where
  store : σ
  log : List Attempt

instance : Store (Logged σ) where
  save s f :=
    ((save s.store f).1,
      ⟨(save s.store f).2, s.log ++ [⟨f, fault? (save s.store f).1⟩]⟩)
  load s := load s.store
  path? s := path? s.store

theorem afterSaves_logged (s : Logged σ) (fs : List Formula) :
    afterSaves s fs = ⟨afterSaves s.store fs, s.log ++ attempts s.store fs⟩ := by
  induction fs generalizing s with
  | nil =>
    rw [attempts, List.append_nil]
    rfl
  | cons f fs ih =>
    have rest := ih (save s f).2
    rw [attempts, List.append_cons]
    exact rest

/-- What a store holds is replaced by the saves that go through and by nothing else. If the store
gives a formula back, it is the one it holds. -/
structure Keeps (content : σ → Option String) : Prop where
  saved : ∀ s f, (save s f).1 = .ok () → content (save s f).2 = some f.toStored
  refused : ∀ s f fault, (save s f).1 = .error fault → content (save s f).2 = content s
  loaded : ∀ s f, load s = .ok (some f) →
    ∃ text, content s = some text ∧ Formula.ofStored text = .ok f

def Attempt.succeeded (a : Attempt) : Bool := a.fault.isNone

def lastSaved (log : List Attempt) : Option Formula :=
  (log.filter Attempt.succeeded).getLast?.map Attempt.formula

def contentAfter (before : Option String) (log : List Attempt) : Option String :=
  match lastSaved log with
  | some f => some f.toStored
  | none => before

theorem lastSaved_append (log more : List Attempt) :
    lastSaved (log ++ more) = (lastSaved more).or (lastSaved log) := by
  unfold lastSaved
  rw [List.filter_append, List.getLast?_append]
  cases (more.filter Attempt.succeeded).getLast? with
  | none => rfl
  | some a => rfl

theorem contentAfter_append (before : Option String) (log more : List Attempt) :
    contentAfter before (log ++ more) = contentAfter (contentAfter before log) more := by
  unfold contentAfter
  rw [lastSaved_append]
  cases lastSaved more with
  | none => rfl
  | some f => rfl

theorem contentAfter_of_succeeded {log : List Attempt} {a : Attempt} (before : Option String)
    (last : log.getLast? = some a) (succeeded : a.succeeded = true) :
    contentAfter before log = some a.formula.toStored := by
  obtain ⟨earlier, rfl⟩ := List.getLast?_eq_some_iff.mp last
  have alone : lastSaved [a] = some a.formula := by
    rw [lastSaved, List.filter_cons_of_pos succeeded]
    rfl
  rw [contentAfter_append, contentAfter, alone]

namespace Keeps

variable {content : σ → Option String}

theorem content_save (k : Keeps content) (s : σ) (f : Formula) :
    content (save s f).2 = contentAfter (content s) (attempts s [f]) := by
  rcases outcome : (save s f).1 with fault | _
  · rw [k.refused s f fault outcome]
    simp [attempts, outcome, fault?, contentAfter, lastSaved, Attempt.succeeded]
  · rw [k.saved s f outcome]
    simp [attempts, outcome, fault?, contentAfter, lastSaved, Attempt.succeeded]

theorem content_afterSaves (k : Keeps content) (s : σ) (fs : List Formula) :
    content (afterSaves s fs) = contentAfter (content s) (attempts s fs) := by
  induction fs generalizing s with
  | nil => rfl
  | cons f fs ih =>
    have rest := ih (save s f).2
    rw [k.content_save, ← contentAfter_append] at rest
    exact rest

end Keeps

theorem keeps_memory : Keeps Memory.content where
  saved s f passed := by
    cases broken : s.isBroken <;> simp_all [save, Memory.save]
  refused s f fault failed := by
    cases broken : s.isBroken <;> simp_all [save, Memory.save]
  loaded s f found := by
    simp only [load, Memory.load] at found
    split at found
    · cases found
    · split at found
      · next text held => exact ⟨text, held, Formula.ofStored_of_map found⟩
      · cases found

theorem keeps_formulaFile : Keeps FormulaFile.content where
  saved _ _ passed := FormulaFile.content_of_saved passed
  refused _ _ _ failed := FormulaFile.content_of_failed failed
  loaded _ _ found := FormulaFile.exists_content_of_load found

end Store

/-! ## The edits of an event -/

namespace Edit

theorem isMutation_of_inPlace {d : Edit} (h : d.InPlace) : d.isMutation = true := by
  cases d with
  | replace i t => rfl
  | _ => exact h.elim

end Edit

namespace Editor

variable {σ : Type} [Store σ]

theorem isMutation_of_mem_appends {ts : List Token} : ∀ d ∈ ts.map Edit.append,
    d.isMutation = true := by
  intro d member
  obtain ⟨t, _, rfl⟩ := List.mem_map.mp member
  rfl

theorem isMutation_of_mem_actionEdits (e : Editor σ) (a : Action) :
    ∀ d ∈ e.actionEdits a, d.isMutation = true := by
  have inPlace {ds : List Edit} (h : ∀ d ∈ ds, d.InPlace) : ∀ d ∈ ds, d.isMutation = true :=
    fun d member => Edit.isMutation_of_inPlace (h d member)
  cases a with
  | erase =>
    simp only [actionEdits]
    split
    · simp [Edit.isMutation]
    · simp
  | select i => exact inPlace (e.inPlace_select i)
  | replaceWith i s =>
    simp only [actionEdits]
    split
    · simp [Edit.isMutation]
    · simp
  | remove i =>
    simp only [actionEdits]
    split
    · simp [Edit.isMutation]
    · simp
  | startRename i => exact inPlace (e.inPlace_startRename i)
  | finishRename => exact inPlace e.inPlace_renameEdits
  | clickOutside => exact inPlace e.inPlace_renameEdits
  | clear => simp [actionEdits, Edit.isMutation]
  | _ => exact isMutation_of_mem_appends

theorem edits_cases (e : Editor σ) (x : Event) :
    (∀ d ∈ e.edits x, d.isMutation = true) ∨
      ∃ g, e.stored? = some g ∧ e.edits x = [.reload g] := by
  cases x with
  | act a => exact .inl (e.isMutation_of_mem_actionEdits a)
  | append t => exact .inl (List.forall_mem_singleton.mpr rfl)
  | removeAt i =>
    left
    simp only [edits]
    split
    · simp [Edit.isMutation]
    · simp
  | replaceAt i t =>
    left
    simp only [edits]
    split
    · simp [Edit.isMutation]
    · simp
  | load =>
    cases stored : e.stored? with
    | none =>
      left
      simp [edits, stored]
    | some g => exact .inr ⟨g, rfl, by simp [edits, stored]⟩
  | _ => exact .inl (List.forall_mem_nil _)

/-! ## Runs -/

open Store (Logged Keeps Attempt lastSaved contentAfter)

/-- What happens to an editor with a store: its own events, and in between the store may fall out
of order and come back. -/
inductive Happening (σ : Type) where
  | event (x : Event)
  | condition (change : σ → σ)

def happen (e : Editor (Logged σ)) : Happening σ → Editor (Logged σ)
  | .event x => (e.perform x).2
  | .condition change =>
    { e with store := e.store.map fun s => { s with store := change s.store } }

def happenAll (e : Editor (Logged σ)) (hs : List (Happening σ)) : Editor (Logged σ) :=
  hs.foldl happen e

theorem store_perform {e : Editor (Logged σ)} {t : Logged σ} (store : e.store = some t)
    (x : Event) : (e.perform x).2.store =
      some (Store.afterSaves t (Edit.stages (e.edits x) e.formula)) := by
  rw [(e.stores_perform x).store, store]
  rfl

theorem store_condition {e : Editor (Logged σ)} {t : Logged σ} (store : e.store = some t)
    (change : σ → σ) :
    (e.happen (.condition change)).store = some { t with store := change t.store } := by
  rw [happen, store]
  rfl

theorem exists_store_happenAll {e : Editor (Logged σ)} {t : Logged σ} (store : e.store = some t)
    (hs : List (Happening σ)) : ∃ u, (e.happenAll hs).store = some u := by
  induction hs generalizing e t with
  | nil => exact ⟨t, store⟩
  | cons x hs ih =>
    cases x with
    | event x => exact ih (store_perform store x)
    | condition change => exact ih (store_condition store change)

/-- The store holds what the saves of its log have left, and the current formula if the last of
them went through. -/
structure Holds (content : σ → Option String) (before : Option String) (e : Editor (Logged σ))
    (s : Logged σ) : Prop where
  stored : e.store = some s
  held : content s.store = contentAfter before s.log
  current : ∀ a, s.log.getLast? = some a → a.succeeded = true →
    content s.store = some e.formula.toStored

variable {content : σ → Option String} {before : Option String} {e : Editor (Logged σ)}
  {s : Logged σ}

theorem load_of_stored? {e : Editor σ} {s : σ} {g : Formula} (store : e.store = some s)
    (read : e.stored? = some g) : Store.load s = .ok (some g) := by
  unfold stored? at read
  rw [store, Option.map_some] at read
  split at read
  · next found loaded => rw [Option.some.inj loaded, read]
  · cases read

theorem Holds.formula_of_read (keeps : Keeps content) (h : Holds content before e s) {a : Attempt}
    (last : s.log.getLast? = some a) (succeeded : a.succeeded = true) {g : Formula}
    (read : e.stored? = some g) : g = e.formula := by
  have given : Store.load s = .ok (some g) := load_of_stored? h.stored read
  obtain ⟨text, holds, decoded⟩ := keeps.loaded s.store g given
  rw [h.current a last succeeded] at holds
  cases holds
  exact Except.ok.inj (decoded.symm.trans (Formula.ofStored_toStored e.formula))

theorem Holds.formula_of_unsaved (keeps : Keeps content) (h : Holds content before e s) {x : Event}
    (unsaved : Edit.stages (e.edits x) e.formula = []) {a : Attempt}
    (last : s.log.getLast? = some a) (succeeded : a.succeeded = true) :
    (e.perform x).2.formula = e.formula := by
  rw [(e.stores_perform x).formula]
  rcases e.edits_cases x with mutates | ⟨g, read, edits⟩
  · rw [Edit.applyAll_eq_getLast?_stages e.formula mutates, unsaved]
    rfl
  · rw [edits]
    exact h.formula_of_read keeps last succeeded read

theorem formula_of_saved {e : Editor σ} {x : Event} {f : Formula}
    (saved : (Edit.stages (e.edits x) e.formula).getLast? = some f) :
    (e.perform x).2.formula = f := by
  rw [(e.stores_perform x).formula]
  rcases e.edits_cases x with mutates | ⟨g, read, edits⟩
  · rw [Edit.applyAll_eq_getLast?_stages e.formula mutates, saved]
    rfl
  · rw [edits] at saved
    cases saved

theorem Holds.perform (keeps : Keeps content) (h : Holds content before e s) (x : Event) :
    Holds content before (e.perform x).2
      (Store.afterSaves s (Edit.stages (e.edits x) e.formula)) := by
  generalize stages : Edit.stages (e.edits x) e.formula = fs
  have held : content (Store.afterSaves s.store fs) =
      contentAfter before (s.log ++ Store.attempts s.store fs) := by
    rw [keeps.content_afterSaves, h.held, ← Store.contentAfter_append]
  rw [Store.afterSaves_logged]
  refine ⟨?_, held, ?_⟩
  · rw [store_perform h.stored, stages, Store.afterSaves_logged]
  · intro a last succeeded
    rcases Store.last_attempt last with ⟨rfl, earlier⟩ | saved
    · rw [h.formula_of_unsaved keeps stages earlier succeeded]
      exact h.current a earlier succeeded
    · rw [formula_of_saved (stages ▸ saved),
        ← Store.contentAfter_of_succeeded before last succeeded]
      exact held

theorem Holds.condition (h : Holds content before e s) {change : σ → σ}
    (untouched : ∀ s, content (change s) = content s) :
    Holds content before (e.happen (.condition change))
      { s with store := change s.store } where
  stored := store_condition h.stored change
  held := (untouched s.store).trans h.held
  current a last succeeded := (untouched s.store).trans (h.current a last succeeded)

theorem Holds.happenAll (keeps : Keeps content) (h : Holds content before e s)
    {hs : List (Happening σ)}
    (untouched : ∀ change, .condition change ∈ hs → ∀ s, content (change s) = content s) :
    ∃ t, Holds content before (e.happenAll hs) t := by
  induction hs generalizing e s with
  | nil => exact ⟨s, h⟩
  | cons x hs ih =>
    have rest : ∀ change, .condition change ∈ hs → ∀ s, content (change s) = content s :=
      fun change member => untouched change (List.mem_cons_of_mem x member)
    cases x with
    | event x => exact ih (h.perform keeps x) rest
    | condition change => exact ih (h.condition (untouched change List.mem_cons_self)) rest

theorem stores_unmutated {e : Editor σ} {x : Event}
    (h : ∀ d ∈ e.edits x, d.isMutation = false) : (e.perform x).2.store = e.store := by
  rw [(e.stores_perform x).store, Edit.stages_eq_nil e.formula h]
  cases e.store <;> rfl

/-- After any run, the next event makes the store save each formula that a mutation leads to, once
and in order, and nothing else. A store whose content is replaced by the saves that go through alone
holds the formula of the last one that did; if that was the last save of all, it is the current
formula. -/
theorem each_mutation_saved_once (ids : IdSupply) (lookup : Option Lookup) (s : σ)
    (hs : List (Happening σ)) :
    let e := (Editor.new ids lookup (some (Logged.mk s []))).happenAll hs
    ∃ t, e.store = some t ∧
      (∀ x, (e.perform x).2.formula = Edit.applyAll (e.edits x) e.formula ∧
        ∃ u more, (e.perform x).2.store = some u ∧ u.log = t.log ++ more ∧
          more.map Attempt.formula = Edit.stages (e.edits x) e.formula) ∧
      (∀ x, (∀ d ∈ e.edits x, d.isMutation = false) → (e.perform x).2.store = some t) ∧
      ∀ content : σ → Option String, Keeps content →
        (∀ change, .condition change ∈ hs → ∀ s, content (change s) = content s) →
        (∀ f, lastSaved t.log = some f → content t.store = some f.toStored) ∧
        (lastSaved t.log = none → content t.store = content s) ∧
        (∀ a, t.log.getLast? = some a → a.fault = none →
          ∃ text, content t.store = some text ∧ Formula.ofStored text = .ok e.formula) := by
  intro e
  obtain ⟨t, stored⟩ := exists_store_happenAll
    (e := Editor.new ids lookup (some (Logged.mk s []))) rfl hs
  refine ⟨t, stored, ?_, ?_, ?_⟩
  · intro x
    have log := congrArg Logged.log
      (Store.afterSaves_logged t (Edit.stages (e.edits x) e.formula))
    exact ⟨(e.stores_perform x).formula, _, _, store_perform stored x, log,
      Store.map_formula_attempts _ _⟩
  · intro x unmutated
    exact (stores_unmutated unmutated).trans stored
  · intro content keeps untouched
    have start : Holds content (content s) (Editor.new ids lookup (some (Logged.mk s [])))
        ⟨s, []⟩ := ⟨rfl, rfl, fun a last => by cases last⟩
    obtain ⟨u, holds⟩ := start.happenAll keeps untouched
    obtain rfl : u = t := Option.some.inj (holds.stored.symm.trans stored)
    refine ⟨?_, ?_, ?_⟩
    · intro f last
      rw [holds.held, contentAfter, last]
    · intro never
      rw [holds.held, contentAfter, never]
    · intro a last passed
      have succeeded : a.succeeded = true := by rw [Attempt.succeeded, passed]; rfl
      exact ⟨_, holds.current a last succeeded, Formula.ofStored_toStored e.formula⟩

def breakdown : List (Happening Memory) :=
  [.event (.act (.type "x")), .event (.act (.operator '+')),
    .condition fun s => { s with isBroken := true }, .event (.act (.operator '-')), .event .load]

theorem saved_until_breakdown :
    Keeps Memory.content ∧
      (∀ change, .condition change ∈ breakdown → ∀ s : Memory, (change s).content = s.content) ∧
      ∃ t, ((Editor.new ⟨0, 0⟩ none
          (some (Logged.mk ⟨none, false, 0⟩ []))).happenAll breakdown).store = some t ∧
        t.log.map Attempt.succeeded = [true, true, false] ∧
        t.store.content =
          some (Formula.toStored [.var "0-0" "x" .zero none, .operator (.arithmetic .add)]) := by
  have untouched : ∀ change, .condition change ∈ breakdown →
      ∀ s : Memory, (change s).content = s.content := by
    intro change member s
    simp only [breakdown, List.mem_cons, reduceCtorEq, Happening.condition.injEq,
      List.not_mem_nil, or_false, false_or] at member
    rw [member]
  refine ⟨Store.keeps_memory, untouched, ?_⟩
  obtain ⟨t, stored, _, _, kept⟩ :=
    each_mutation_saved_once ⟨0, 0⟩ none (⟨none, false, 0⟩ : Memory) breakdown
  obtain ⟨held, _, _⟩ := kept Memory.content Store.keeps_memory untouched
  have logged : ((Editor.new ⟨0, 0⟩ none
      (some (Logged.mk ⟨none, false, 0⟩ []))).happenAll breakdown).store.map
        (fun t : Logged Memory => (t.log.map Attempt.succeeded, lastSaved t.log)) =
      some ([true, true, false],
        some [.var "0-0" "x" .zero none, .operator (.arithmetic .add)]) := by
    decide +kernel
  rw [stored] at logged
  obtain ⟨succeeded, last⟩ := Prod.mk.inj (Option.some.inj logged)
  exact ⟨t, stored, succeeded, held _ last⟩

end Editor

end TagFormula
