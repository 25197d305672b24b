import TagFormula.Proofs.Refusal
import TagFormula.Proofs.StoreLog

/-!
How failed saves are told of. A save that fails leaves a fault, which is pending until an action
that goes through delivers it or the owner of the editor takes it. Over every run what has been
told and what is still pending make up the faults of all failed saves, each once and in order.
-/
namespace TagFormula

def Effect.warning? : Effect → Option StorageFault
  | .warning fault => some fault
  | _ => none

theorem Effect.filterMap_warning (faults : List StorageFault) :
    (faults.map Effect.warning).filterMap Effect.warning? = faults := by
  induction faults with
  | nil => rfl
  | cons fault rest ih => rw [List.map_cons, List.filterMap_cons, warning?, ih]

namespace Editor

def Outcome.told : Outcome → List StorageFault
  | .effects l => l.filterMap Effect.warning?
  | .warnings l => l
  | _ => []

theorem Outcome.told_ofFormer (r : Except Fault Token) : (ofFormer r).told = [] := by
  cases r <;> rfl

theorem Outcome.told_ofLoad (r : Option StorageFault) : (ofLoad r).told = [] := by
  cases r <;> rfl

variable {σ : Type} [Store σ]

open Edit (stages)

/-! ## What comes back from an action -/

def announced (e : Editor σ) : Action → List Effect
  | .evaluate => [e.evaluate.1]
  | _ => []

theorem announced_plain (e : Editor σ) (a : Action) :
    (e.announced a).filterMap Effect.warning? = [] := by
  cases a with
  | evaluate =>
    simp only [announced, evaluate]
    split
    · rfl
    · rfl
  | _ => rfl

/-- An action delivers what is pending after its edits, is refused for its position, or has no
name to change. In the last two cases nothing is saved and nothing delivered. -/
inductive Reports (e : Editor σ) (a : Action) : Except Fault (List Effect) × Editor σ → Prop where
  | delivered {d : Editor σ} (inside : ∀ i, a.position? = some i → i < e.formula.length)
    (saved : Saves (e.actionEdits a) e d) : Reports e a (deliver (e.announced a) d)
  | refused {i : Nat} {ids : IdSupply} (named : a.position? = some i)
    (outside : e.formula.length ≤ i) :
    Reports e a (.error (e.outOfRange i), { e with ids := ids })
  | nameless {i : Nat} {t : Token} (a_eq : a = .startRename i) (found : e.formula[i]? = some t)
    (operator : t.isOperator = true) : Reports e a (.ok [], e.note (.renameRefused i))

theorem reports_deliverAfter {e : Editor σ} {a : Action} {r : Except Fault Unit × Editor σ}
    (inside : ∀ i, a.position? = some i → i < e.formula.length) (passed : r.1 = .ok ())
    (plain : e.announced a = []) (saved : Saves (e.actionEdits a) e r.2) :
    Reports e a (deliverAfter r) := by
  obtain ⟨fault | _, d⟩ := r
  · cases passed
  · have delivered := Reports.delivered inside saved
    rw [plain] at delivered
    exact delivered

theorem reports_operator (e : Editor σ) (c : Char) :
    Reports e (.operator c) (e.carryOut (.operator c)) := by
  have inside : ∀ i, (Action.operator c).position? = some i → i < e.formula.length := nofun
  have edits : e.actionEdits (.operator c) = (e.typed c).map .append := rfl
  simp only [carryOut]
  unfold typed at edits
  cases operator : Operator.ofChar? c with
  | none =>
    rw [operator] at edits
    exact .delivered inside (edits ▸ .of_same (.refl e))
  | some op =>
    rw [operator] at edits
    exact .delivered inside (edits ▸ e.saves_typeOperator op)

theorem reports_startRename {e : Editor σ} (h : e.InRange) {i : Nat}
    (inside : i < e.formula.length) :
    Reports e (.startRename i) (e.carryOut (.startRename i)) := by
  have found := List.getElem?_eq_getElem inside
  simp only [carryOut, found]
  split
  · next operator => exact .nameless rfl found operator
  · next named =>
    refine reports_deliverAfter ?_ (startRename_spec h i _).1 rfl ?_
    · rintro j ⟨⟩
      exact inside
    · simp only [actionEdits, found, named]
      exact e.saves_startRename i _

theorem reports_of_inside {e : Editor σ} (h : e.InRange) {a : Action}
    (inside : ∀ i, a.position? = some i → i < e.formula.length) :
    Reports e a (e.carryOut a) := by
  cases a with
  | type text => exact .delivered inside (e.saves_type text)
  | erase => exact reports_deliverAfter inside e.does_erase.1 rfl e.saves_erase
  | operator c => exact e.reports_operator c
  | commit => exact .delivered inside e.saves_commit
  | acceptFirst => exact .delivered inside e.saves_chooseFirst
  | choose s => exact .delivered inside (e.saves_choose s)
  | evaluate => exact .delivered inside e.saves_evaluate
  | select i =>
    exact reports_deliverAfter inside (select_of_inside h (inside i rfl)).1 rfl (e.saves_select i)
  | replaceWith i s =>
    exact reports_deliverAfter inside (replaceWith_of_inside s (inside i rfl)).1 rfl
      (e.saves_replaceWith i s)
  | remove i =>
    exact reports_deliverAfter inside (remove_of_inside (inside i rfl)) rfl (e.saves_removeAt i)
  | startRename i => exact reports_startRename h (inside i rfl)
  | typeRename text => exact .delivered inside (e.saves_typeRename text)
  | finishRename =>
    exact reports_deliverAfter inside (finishRename_spec h).1 rfl e.saves_finishRename
  | cancelRename => exact .delivered inside (.of_eq rfl rfl rfl)
  | clickOutside =>
    exact reports_deliverAfter inside (finishRename_spec h).1 rfl e.saves_finishRename
  | clear => exact .delivered inside e.saves_clear

theorem reports_apply {e : Editor σ} (h : e.InRange) (a : Action) :
    Reports (e.note (.action a)) a (e.apply a) := by
  rcases outside_or_inside a e.formula.length with ⟨i, named, outside⟩ | inside
  · obtain ⟨ids, result⟩ := carryOut_of_outside (e := e.note (.action a)) named outside
    rw [apply, result]
    exact .refused named outside
  · exact reports_of_inside (h.noted _) inside

/-! ## What is told and what is pending -/

/-- What an outcome tells of and what is pending after it are what was pending before and what
has failed on the way. -/
structure Tells (ds : List Edit) (e : Editor σ) (o : Outcome) (e' : Editor σ) : Prop where
  store : e'.store = e.store.map (Store.afterSaves · (stages ds e.formula))
  told : o.told ++ e'.warnings =
    e.warnings ++ (e.attempts (stages ds e.formula)).filterMap Store.Attempt.fault

theorem Saves.tells {ds : List Edit} {e e' : Editor σ} {o : Outcome} (saved : Saves ds e e')
    (silent : o.told = []) : Tells ds e o e' where
  store := saved.store
  told := by rw [silent, List.nil_append, saved.warnings]

theorem tells_deliver {ds : List Edit} {e d : Editor σ} {effects : List Effect}
    (plain : effects.filterMap Effect.warning? = []) (saved : Saves ds e d) :
    Tells ds e (.ofEffects (deliver effects d).1) (deliver effects d).2 where
  store := saved.store
  told := by
    simp only [deliver, takeWarnings, Outcome.ofEffects, Outcome.told, List.filterMap_append,
      plain, Effect.filterMap_warning, List.nil_append, List.append_nil]
    exact saved.warnings

theorem Reports.tells {e : Editor σ} {a : Action} {r : Except Fault (List Effect) × Editor σ}
    (h : Reports e a r) : ∃ ds, Tells ds e (.ofEffects r.1) r.2 := by
  cases h with
  | delivered inside saved => exact ⟨_, tells_deliver (e.announced_plain a) saved⟩
  | refused named outside => exact ⟨[], Saves.tells (.of_eq rfl rfl rfl) rfl⟩
  | nameless a_eq found operator => exact ⟨[], Saves.tells (.of_eq rfl rfl rfl) rfl⟩

theorem tells_perform {e : Editor σ} (h : e.InRange) (x : Event) :
    ∃ ds, Tells ds e (e.perform x).1 (e.perform x).2 := by
  have unseen {o : Outcome} {d : Editor σ} (same : SameButLookup e d) (silent : o.told = []) :
      ∃ ds, Tells ds e o d := ⟨[], (Saves.of_same same).tells silent⟩
  cases x with
  | act a =>
    obtain ⟨ds, store, told⟩ := (reports_apply h a).tells
    exact ⟨ds, store, told⟩
  | append t => exact ⟨_, (e.saves_append t).tells rfl⟩
  | removeAt i => exact ⟨_, (e.saves_removeAt i).tells (Outcome.told_ofFormer _)⟩
  | replaceAt i t => exact ⟨_, (e.saves_replaceAt i t).tells (Outcome.told_ofFormer _)⟩
  | resolve text =>
    simp only [perform]
    exact unseen (e.sameButLookup_resolve text) rfl
  | load => exact ⟨_, e.saves_load.tells (Outcome.told_ofLoad _)⟩
  | takeWarnings =>
    have saved := Saves.of_same (.refl e)
    exact ⟨[], saved.store, (List.append_nil _).trans saved.warnings⟩
  | harvest => exact unseen (e.sameButLookup_withLookup Lookup.harvest) rfl
  | await => exact unseen (e.sameButLookup_withLookup Lookup.await) rfl
  | take count => exact unseen (e.sameButLookup_onLookup _) rfl
  | serveNext => exact unseen (e.sameButLookup_onLookup _) rfl
  | drain => exact unseen (e.sameButLookup_onLookup _) rfl
  | advanceTo time => exact unseen (e.sameButLookup_onLookup _) rfl

/-! ## When nothing is pending -/

def Event.isDirect : Event → Bool
  | .append _ | .removeAt _ | .replaceAt _ _ => true
  | _ => false

theorem warnings_load (e : Editor σ) : e.load.2.warnings = e.warnings := by
  have saved := e.saves_load.warnings
  have unsaved : stages (e.stored?.map Edit.reload).toList e.formula = [] := by
    cases e.stored? <;> rfl
  rw [saved, unsaved]
  unfold attempts
  cases e.store <;> exact List.append_nil _

theorem Reports.warnings {e : Editor σ} {a : Action} {r : Except Fault (List Effect) × Editor σ}
    (h : Reports e a r) : r.2.warnings = [] ∨ r.2.warnings = e.warnings := by
  cases h with
  | delivered inside saved => exact .inl rfl
  | refused named outside => exact .inr rfl
  | nameless a_eq found operator => exact .inr rfl

theorem nothing_pending_perform {e : Editor σ} (h : e.InRange) (before : e.warnings = [])
    {x : Event} (indirect : x.isDirect = false) : (e.perform x).2.warnings = [] := by
  cases x with
  | act a => exact (reports_apply h a).warnings.elim id (·.trans before)
  | append t | removeAt i | replaceAt i t => cases indirect
  | resolve text =>
    simp only [perform]
    exact (e.sameButLookup_resolve text).warnings.trans before
  | load => exact e.warnings_load.trans before
  | takeWarnings => rfl
  | harvest => exact (e.sameButLookup_withLookup Lookup.harvest).warnings.trans before
  | await => exact (e.sameButLookup_withLookup Lookup.await).warnings.trans before
  | take count | serveNext | drain | advanceTo time => exact before

/-! ## Runs -/

open Store (Logged Attempt)

def failures (e : Editor (Logged σ)) : List StorageFault :=
  match e.store with
  | some s => s.log.filterMap Attempt.fault
  | none => []

/-- What is told in the course of a run, oldest first. -/
def told (e : Editor (Logged σ)) : List (Happening σ) → List StorageFault
  | [] => []
  | .event x :: hs => (e.perform x).1.told ++ told (e.happen (.event x)) hs
  | .condition change :: hs => told (e.happen (.condition change)) hs

theorem inRange_happen {e : Editor (Logged σ)} (h : e.InRange) (x : Happening σ) :
    (e.happen x).InRange := by
  cases x with
  | event x => exact inRange_perform h x
  | condition change => exact ⟨h.selection, h.renameAt⟩

theorem attempts_logged (s : Logged σ) (fs : List Formula) :
    Store.attempts s fs = Store.attempts s.store fs := by
  induction fs generalizing s with
  | nil => rfl
  | cons f fs ih =>
    have rest := ih (Store.save s f).2
    simp only [Store.attempts, rest]
    rfl

theorem Tells.failures {ds : List Edit} {e e' : Editor (Logged σ)} {o : Outcome}
    (h : Tells ds e o e') :
    e'.failures = e.failures ++
      (e.attempts (stages ds e.formula)).filterMap Attempt.fault := by
  unfold Editor.failures Editor.attempts
  rw [h.store]
  cases e.store with
  | none => rfl
  | some s =>
    simp only [Option.map_some, Store.afterSaves_logged, attempts_logged, List.filterMap_append]

theorem balance_perform {e : Editor (Logged σ)} (h : e.InRange) (x : Event)
    {before : List StorageFault} (balance : before ++ e.warnings = e.failures) :
    (before ++ (e.perform x).1.told) ++ (e.perform x).2.warnings = (e.perform x).2.failures := by
  obtain ⟨ds, tells⟩ := tells_perform h x
  rw [tells.failures, ← balance, List.append_assoc, List.append_assoc, tells.told]

theorem failures_condition (e : Editor (Logged σ)) (change : σ → σ) :
    (e.happen (.condition change)).failures = e.failures := by
  unfold failures happen
  cases e.store <;> rfl

theorem balance_happenAll {e : Editor (Logged σ)} (h : e.InRange) (hs : List (Happening σ))
    {before : List StorageFault} (balance : before ++ e.warnings = e.failures) :
    (before ++ e.told hs) ++ (e.happenAll hs).warnings = (e.happenAll hs).failures := by
  induction hs generalizing e before with
  | nil =>
    rw [told, List.append_nil]
    exact balance
  | cons x hs ih =>
    have inRange := inRange_happen h x
    cases x with
    | event x =>
      rw [told, ← List.append_assoc]
      exact ih inRange (balance_perform h x balance)
    | condition change => exact ih inRange (balance.trans (e.failures_condition change).symm)

theorem nothing_pending_happenAll {e : Editor (Logged σ)} (h : e.InRange)
    (before : e.warnings = []) {hs : List (Happening σ)}
    (indirect : ∀ x, .event x ∈ hs → x.isDirect = false) : (e.happenAll hs).warnings = [] := by
  induction hs generalizing e with
  | nil => exact before
  | cons x hs ih =>
    refine ih (inRange_happen h x) ?_ fun x member => indirect x (List.mem_cons_of_mem _ member)
    cases x with
    | event x => exact nothing_pending_perform h before (indirect x List.mem_cons_self)
    | condition change => exact before

/-- After any run, what has been told of failed saves and then what is pending are the faults of
all saves that failed, in order. Loading, even if it fails, adds nothing to either; and nothing is
ever pending as long as no change is made but by actions. -/
theorem each_failed_save_told_once (ids : IdSupply) (lookup : Option Lookup) (store : Option σ)
    (hs : List (Happening σ)) :
    let start := Editor.new ids lookup (store.map (Logged.mk · []))
    let e := start.happenAll hs
    start.told hs ++ e.warnings = e.failures ∧
    ((e.perform .load).1.told = [] ∧ (e.perform .load).2.warnings = e.warnings ∧
      (e.perform .load).2.store = e.store) ∧
    ((∀ x, .event x ∈ hs → x.isDirect = false) → e.warnings = []) := by
  intro start e
  have inRange : start.InRange := inRange_new ids lookup _
  have balance : [] ++ start.warnings = start.failures := by
    cases store <;> rfl
  refine ⟨balance_happenAll inRange hs balance,
    ⟨Outcome.told_ofLoad _, e.warnings_load, ?_⟩, ?_⟩
  · refine stores_unmutated ?_
    cases read : e.stored? <;> simp [edits, read, Edit.isMutation]
  · exact nothing_pending_happenAll inRange rfl

end Editor

end TagFormula
