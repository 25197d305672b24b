import TagFormula.Proofs.CommitTiming
import TagFormula.Proofs.Lockstep

/-!
A source that is of no help is the same as no source. As long as no harvest brings candidates and
no direct search finds a list, an editor goes through the same formulas, sessions, identifiers,
stores and warnings as one that has no lookup, and every action comes to the same. A source without
a single list to give is of no help ever. Nor is a reply of any help once a harvest has found its
deadline over; but a harvest takes in what has arrived before it looks at the clock.
-/
namespace TagFormula

namespace Lookup

/-! ## Help -/

def Outcome.helps : Outcome → Bool
  | .harvested .candidates => true
  | .found (.ok _) => true
  | _ => false

theorem kept_always : Kept fun _ _ _ => True where
  serveNext _ := trivial
  take _ _ := trivial
  advanceTo _ _ := trivial
  request _ _ := trivial
  cancel _ := trivial
  harvest _ := trivial
  ask _ _ := trivial
  collect _ _ := trivial

variable {l : Lookup}

theorem bare_harvest (bare : l.view.candidates = []) (unaided : l.harvest.1 ≠ .candidates) :
    l.harvest.2.view.candidates = [] := by
  have step := l.harvests
  generalize l.harvest = outcome at step unaided
  obtain ⟨brought, after⟩ := outcome
  cases step with
  | found => exact (unaided rfl).elim
  | failed => rfl
  | late => rfl
  | nothing => exact bare

theorem bare_perform {y : Event} (bare : l.view.candidates = [])
    (unaided : (l.perform y).1.helps = false) : (l.perform y).2.view.candidates = [] := by
  have harvested (brought : Harvest) (told : (l.perform y).1 = .harvested brought) :
      (l.perform y).2.view.candidates = [] := by
    obtain ⟨m, view, _, harvest⟩ := kept_always.harvested (s := []) (p := []) trivial told
    have unaided : m.harvest.1 ≠ .candidates := by
      intro found
      obtain rfl : brought = .candidates := (congrArg Prod.fst harvest).symm.trans found
      rw [told] at unaided
      cases unaided
    have same := bare_harvest (view.symm ▸ bare) unaided
    rw [harvest] at same
    exact same
  cases y with
  | request text => exact bare
  | cancel => rfl
  | harvest => exact harvested _ rfl
  | await => exact harvested _ rfl
  | _ =>
    rw [l.view_perform_of_isUnseen rfl]
    exact bare

theorem bare_run {ys : List Event} (bare : l.view.candidates = [])
    (unaided : ∀ o ∈ (l.run ys).1, o.helps = false) : (l.run ys).2.view.candidates = [] := by
  induction ys generalizing l with
  | nil => exact bare
  | cons y ys ih =>
    obtain ⟨first, rest⟩ := List.forall_mem_cons.mp unaided
    exact ih (bare_perform bare first) rest

theorem quiet_of_unavailable {fault : LookupFault} (told : l.harvest.1 = .unavailable fault) :
    l.harvest.2.Quiet := by
  have step := l.harvests
  generalize l.harvest = outcome at step told
  obtain ⟨brought, after⟩ := outcome
  cases step with
  | found => cases told
  | failed => exact ⟨rfl, rfl⟩
  | late => exact ⟨rfl, rfl⟩
  | nothing => cases told

/-! ## A source without a list -/

structure Barren (l : Lookup) : Prop where
  source : ∀ n text found, l.source n text ≠ .reply (.ok found)
  replies : ∀ r ∈ l.replies, ∀ found, r.result ≠ .ok found

theorem barren_new {source : Source} (delay : Nat)
    (none : ∀ n text found, source n text ≠ .reply (.ok found)) :
    (Lookup.new source delay).Barren :=
  ⟨none, fun _ member => absurd member List.not_mem_nil⟩

namespace Barren

theorem serveNext (h : l.Barren) : l.serveNext.Barren := by
  have step := l.serves
  obtain ⟨source, replies⟩ := h
  generalize l.next? = first at step
  generalize l.serveNext = after at step ⊢
  cases step with
  | idle => exact ⟨source, replies⟩
  | @replied d rest result inHand answer =>
    refine ⟨source, fun r member found given => ?_⟩
    rcases List.mem_append.mp member with old | new
    · exact replies r old found given
    · obtain rfl := List.mem_singleton.mp new
      exact source _ _ found (answer.trans (congrArg Answer.reply given))
  | stalled => exact ⟨source, replies⟩

theorem take (h : l.Barren) (count : Nat) : (l.take count).Barren := by
  have step := l.takes count
  generalize l.take count = after at step
  cases step with
  | busy => exact h
  | batch => exact ⟨h.source, h.replies⟩

theorem harvest (h : l.Barren) : l.harvest.1 ≠ .candidates ∧ l.harvest.2.Barren := by
  have step := l.harvests
  obtain ⟨source, replies⟩ := h
  generalize l.harvest = outcome at step
  obtain ⟨brought, after⟩ := outcome
  have emptied : ∀ r ∈ ([] : List Reply), ∀ found, r.result ≠ .ok found :=
    fun _ member => absurd member List.not_mem_nil
  cases step with
  | found waiting arrived demand result => exact (replies _ arrived _ result).elim
  | failed => exact ⟨Harvest.noConfusion, source, emptied⟩
  | late => exact ⟨Harvest.noConfusion, source, emptied⟩
  | nothing => exact ⟨Harvest.noConfusion, source, emptied⟩

theorem collect (h : l.Barren) (ticket : Nat) :
    (Outcome.found (l.collect ticket).1).helps = false ∧ (l.collect ticket).2.Barren := by
  unfold Lookup.collect
  split
  · next r found =>
    have fault := h.replies r (List.mem_of_find?_eq_some found)
    refine ⟨?_, h.source, fun s member => h.replies s (List.mem_filter.mp member).1⟩
    cases given : r.result with
    | ok list => exact (fault list given).elim
    | error cause => rfl
  · exact ⟨rfl, h.source, h.replies⟩

theorem kept : Kept fun l _ _ => l.Barren where
  serveNext h := h.serveNext
  take h count := h.take count
  advanceTo h _ := ⟨h.source, h.replies⟩
  request h _ := ⟨h.source, h.replies⟩
  cancel h := ⟨h.source, h.replies⟩
  harvest h := h.harvest.2
  ask h _ := ⟨h.source, h.replies⟩
  collect h ticket := (h.collect ticket).2

theorem unaided (h : l.Barren) (y : Event) : (l.perform y).1.helps = false := by
  have harvested (brought : Harvest) (told : (l.perform y).1 = .harvested brought) :
      (l.perform y).1.helps = false := by
    obtain ⟨m, _, barren, harvest⟩ := kept.harvested (s := []) (p := []) h told
    have unaided := barren.harvest.1
    rw [harvest] at unaided
    rw [told]
    cases brought with
    | nothing => rfl
    | candidates => exact (unaided rfl).elim
    | unavailable fault => rfl
  cases y with
  | harvest => exact harvested _ rfl
  | await => exact harvested _ rfl
  | searchNow text =>
    have asked := kept.drain (s := []) (p := []) (kept.ask (s := []) (p := []) h text)
    exact (asked.collect _).1
  | collect ticket => exact (h.collect ticket).1
  | _ => rfl

theorem run (h : l.Barren) (ys : List Event) :
    (∀ o ∈ (l.run ys).1, o.helps = false) ∧ (l.run ys).2.Barren := by
  induction ys generalizing l with
  | nil => exact ⟨List.forall_mem_nil _, h⟩
  | cons y ys ih =>
    obtain ⟨rest, after⟩ := ih (kept.perform (s := []) (p := []) h y)
    exact ⟨List.forall_mem_cons.mpr ⟨h.unaided y, rest⟩, after⟩

end Barren

end Lookup

namespace Editor

variable {σ : Type} {e d : Editor σ}

/-! ## The same work -/

structure SameWork (e d : Editor σ) : Prop extends SameButLookup e d where
  ids : d.ids = e.ids

namespace SameWork

theorem persist [Store σ] (h : SameWork e d) : SameWork e.persist d.persist := by
  obtain ⟨⟨formula, session, store, warnings⟩, ids⟩ := h
  unfold Editor.persist
  rw [formula, store]
  cases stored : e.store with
  | none => exact ⟨⟨formula, session, store, warnings⟩, ids⟩
  | some s =>
    simp only
    rcases Store.save s e.formula with ⟨fault | _, saved⟩
    · exact ⟨⟨rfl, session, rfl, congrArg (· ++ [fault]) warnings⟩, ids⟩
    · simp only
      split
      · exact ⟨⟨rfl, session, rfl, warnings⟩, ids⟩
      · exact ⟨⟨rfl, session, rfl, warnings⟩, ids⟩

theorem lockstep [Store σ] : Lockstep (SameWork (σ := σ)) where
  formula h := h.formula
  session h := h.session
  ids h := h.ids
  note h _ _ := ⟨⟨h.formula, h.session, h.store, h.warnings⟩, h.ids⟩
  inSession h _ := ⟨⟨h.formula, rfl, h.store, h.warnings⟩, h.ids⟩
  inIds h _ := ⟨⟨h.formula, h.session, h.store, h.warnings⟩, rfl⟩
  inFormula h _ := persist ⟨⟨rfl, h.session, h.store, h.warnings⟩, h.ids⟩
  cancel h := ⟨⟨h.formula, h.session, h.store, h.warnings⟩, h.ids⟩

theorem delivery : Delivery (SameWork (σ := σ)) (Alike SameWork) where
  deliver {e d} h effects := by
    unfold deliver takeWarnings
    rw [h.warnings]
    exact .mk _ ⟨⟨h.formula, h.session, h.store, rfl⟩, h.ids⟩
  stop h _ := .mk _ h

theorem load [Store σ] (h : SameWork e d) : Alike SameWork e.load d.load := by
  have reset := congrArg
    (fun s : Session => { s with selection := none, renameAt := none }) h.session
  unfold Editor.load
  rw [h.store]
  cases e.store with
  | none => exact .mk _ h
  | some s =>
    simp only
    rcases Store.load s with fault | (_ | f)
    · exact .mk _ (lockstep.note h _ _)
    · rcases Store.path? s with _ | path
      · exact .mk _ h
      · exact .mk _ (lockstep.note h _ _)
    · rcases Store.path? s with _ | path
      · exact .mk _ ⟨⟨rfl, reset, h.store, h.warnings⟩, h.ids⟩
      · exact .mk _ ⟨⟨rfl, reset, h.store, h.warnings⟩, h.ids⟩

theorem type (h : SameWork e d) (text : String) : SameWork (e.type text) (d.type text) := by
  obtain ⟨⟨formula, session, store, warnings⟩, ids⟩ := h
  simp only [Editor.type]
  rw [session]
  split
  · exact ⟨⟨formula, rfl, store, warnings⟩, ids⟩
  · exact ⟨⟨formula, rfl, store, warnings⟩, ids⟩

end SameWork

/-! ## What is consulted -/

/-- Going through these events, the lookup brings nothing. -/
def Unaided (e : Editor σ) (ys : List Lookup.Event) : Prop :=
  ∀ l, e.lookup = some l → ∀ o ∈ (l.run ys).1, o.helps = false

theorem Unaided.left {ys zs : List Lookup.Event} (h : e.Unaided (ys ++ zs)) : e.Unaided ys := by
  intro l lookup o member
  refine h l lookup o ?_
  rw [Lookup.run_append]
  exact List.mem_append_left _ member

theorem Unaided.found? {text : String} (h : e.Unaided [.searchNow text]) :
    found? e.lookup text = none := by
  unfold Editor.found?
  cases lookup : e.lookup with
  | none => rfl
  | some l =>
    have nothing := h l lookup (.found (l.searchNow text).1) List.mem_cons_self
    simp only
    cases told : (l.searchNow text).1 with
    | error fault => rfl
    | ok list =>
      rw [told] at nothing
      cases nothing

theorem resolving_of_isBlankText {text : String} (blank : Text.isBlankText text = true) :
    resolving text = [] := by
  rw [resolving, Text.trim_of_isBlankText blank, if_pos]
  simp

theorem unaided_of_endAsks (h : e.Unaided e.endAsks) : e.Unaided (resolving e.session.entry) := by
  have resolved := h.left
  split at resolved
  · next blank =>
    rw [resolving_of_isBlankText blank]
    exact resolved
  · exact resolved

theorem unaided_of_commitAsks (bare : e.rawCandidates = []) (h : e.Unaided e.commitAsks) :
    e.Unaided (resolving e.session.entry) := by
  unfold commitAsks tokenAsks at h
  rw [candidates_of_bare bare, List.isEmpty_nil, if_pos rfl] at h
  split at h
  · next blank =>
    rw [resolving_of_isBlankText blank]
    exact h
  · exact h.left

namespace SameWork

theorem resolve [Store σ] (h : SameWork e d) (alone : d.lookup = none) {text : String}
    (unaided : e.Unaided (resolving text)) :
    Alike SameWork (e.resolve text) (d.resolve text) := by
  unfold Editor.resolve
  simp only
  unfold resolving at unaided
  cases literal : Number.read? (Text.trim text) with
  | some v => exact .mk _ h
  | none =>
    rw [literal] at unaided
    simp only [Option.isSome_none, Bool.false_or] at unaided ⊢
    split
    · exact lockstep.freshVar h _
    · next full =>
      rw [if_neg full] at unaided
      have searched := e.searchBest_spec (Text.trim text)
      have same := e.sameButLookup_searchBest (Text.trim text)
      rw [unaided.found?] at searched
      have nothing : d.searchBest (Text.trim text) = (none, d) := by
        rw [searchBest, alone]
      rw [nothing]
      generalize e.searchBest (Text.trim text) = r at searched same
      obtain ⟨best, c⟩ := r
      obtain ⟨rfl, ids⟩ := searched
      refine lockstep.freshVar ⟨⟨?_, ?_, ?_, ?_⟩, h.ids.trans ids.symm⟩ _
      · exact h.formula.trans same.formula.symm
      · exact h.session.trans same.session.symm
      · exact h.store.trans same.store.symm
      · exact h.warnings.trans same.warnings.symm

theorem typeOperator [Store σ] (h : SameWork e d) (alone : d.lookup = none) (op : Operator)
    (unaided : e.Unaided (resolving e.session.entry)) :
    SameWork (e.typeOperator op) (d.typeOperator op) := by
  have emptied := lockstep.inSession h { e.session with entry := "" }
  exact lockstep.typeOperator h op (emptied.resolve alone unaided)

theorem commit [Store σ] (h : SameWork e d) (alone : d.lookup = none)
    (bare : e.rawCandidates = []) (unaided : e.Unaided (resolving e.session.entry)) :
    SameWork e.commit d.commit := by
  refine lockstep.commit h ?_
  unfold entryToken
  rw [candidates_of_bare bare, candidates_of_bare (rawCandidates_of_alone alone), h.session]
  exact h.resolve alone unaided

theorem consults [Store σ] (h : SameWork e d) (alone : d.lookup = none)
    (bare : e.rawCandidates = []) {a : Action} (unaided : e.Unaided (e.actionAsks a)) :
    Consults SameWork e d a := by
  cases a with
  | type text => exact h.type text
  | operator c =>
    intro op known
    rw [actionAsks_of_known known] at unaided
    exact h.typeOperator alone op (unaided_of_endAsks unaided)
  | commit => exact h.commit alone bare (unaided_of_commitAsks bare unaided)
  | evaluate => exact h.commit alone bare (unaided_of_commitAsks bare unaided)
  | acceptFirst =>
    unfold Consults chooseFirst
    rw [candidates_of_bare bare, candidates_of_bare (rawCandidates_of_alone alone)]
    exact h
  | _ => trivial

theorem onLookup (h : SameWork e d) (f g : Lookup → Lookup) :
    SameWork (e.onLookup f) (d.onLookup g) :=
  ⟨⟨h.formula, h.session, h.store, h.warnings⟩, h.ids⟩

theorem withLookup (h : SameWork e d) (f g : Lookup → Harvest × Lookup) :
    SameWork (e.withLookup f).2 (d.withLookup g).2 := by
  unfold Editor.withLookup
  split <;> split <;> exact ⟨⟨h.formula, h.session, h.store, h.warnings⟩, h.ids⟩

end SameWork

/-! ## Runs -/

def Outcome.withoutHarvest : Outcome → Outcome
  | .harvested _ => .harvested .nothing
  | o => o

/-- The work is the same, on one side without a lookup and on the other without candidates. -/
structure Bereft (e d : Editor σ) : Prop extends SameWork e d where
  alone : d.lookup = none
  bare : e.rawCandidates = []

theorem Bereft.candidates (h : Bereft e d) : e.candidates = [] ∧ d.candidates = [] :=
  ⟨candidates_of_bare h.bare, candidates_of_bare (rawCandidates_of_alone h.alone)⟩

variable [Store σ]

namespace Bereft

theorem same_perform (h : Bereft e d) {x : Event} (unaided : e.Unaided (e.asking x)) :
    (d.perform x).1.withoutHarvest = (e.perform x).1.withoutHarvest ∧
      SameWork (e.perform x).2 (d.perform x).2 := by
  obtain ⟨same, alone, bare⟩ := h
  cases x with
  | act a =>
    have noted := SameWork.lockstep.note same (.action a) (.action a)
    have asks : (e.note (.action a)).actionAsks a = e.actionAsks a := by cases a <;> rfl
    have consulted := noted.consults (a := a) alone bare (asks ▸ unaided)
    have carried := SameWork.lockstep.carryOut SameWork.delivery noted a consulted
    exact carried.told fun r => (Outcome.ofEffects r).withoutHarvest
  | append t => exact ⟨rfl, SameWork.lockstep.append same t⟩
  | removeAt i =>
    exact (SameWork.lockstep.removeAt same i).told fun r => (Outcome.ofFormer r).withoutHarvest
  | replaceAt i t =>
    exact (SameWork.lockstep.replaceAt same i t).told fun r => (Outcome.ofFormer r).withoutHarvest
  | resolve text =>
    have resolved : Alike SameWork (e.resolve text) (d.resolve text) := same.resolve alone unaided
    simp only [Editor.perform]
    exact resolved.told fun t => (Outcome.resolved t).withoutHarvest
  | load => exact same.load.told fun r => (Outcome.ofLoad r).withoutHarvest
  | takeWarnings =>
    refine ⟨congrArg Outcome.warnings same.warnings, ⟨?_, ?_, ?_, rfl⟩, ?_⟩
    · exact same.formula
    · exact same.session
    · exact same.store
    · exact same.ids
  | harvest => exact ⟨rfl, same.withLookup _ _⟩
  | await => exact ⟨rfl, same.withLookup _ _⟩
  | take count => exact ⟨rfl, same.onLookup _ _⟩
  | serveNext => exact ⟨rfl, same.onLookup _ _⟩
  | drain => exact ⟨rfl, same.onLookup _ _⟩
  | advanceTo time => exact ⟨rfl, same.onLookup _ _⟩

theorem perform (h : Bereft e d) {x : Event} (unaided : e.Unaided (e.asking x)) :
    Bereft (e.perform x).2 (d.perform x).2 := by
  refine ⟨(h.same_perform unaided).2, lookup_perform_of_none h.alone x, ?_⟩
  have bare := h.bare
  have asked := (e.asks_perform x).lookup
  unfold rawCandidates at bare ⊢
  rw [asked]
  cases lookup : e.lookup with
  | none => rfl
  | some l =>
    rw [lookup] at bare
    exact Lookup.bare_run bare (unaided l lookup)

end Bereft

def UnaidedRun (e : Editor σ) : List Event → Prop
  | [] => True
  | x :: xs => e.Unaided (e.asking x) ∧ (e.perform x).2.UnaidedRun xs

theorem UnaidedRun.left {xs ys : List Event} (h : e.UnaidedRun (xs ++ ys)) : e.UnaidedRun xs := by
  induction xs generalizing e with
  | nil => trivial
  | cons x xs ih => exact ⟨h.1, ih h.2⟩

theorem Bereft.run {xs : List Event} (h : Bereft e d) (unaided : e.UnaidedRun xs) :
    (d.run xs).1.map Outcome.withoutHarvest = (e.run xs).1.map Outcome.withoutHarvest ∧
      Bereft (e.run xs).2 (d.run xs).2 := by
  induction xs generalizing e d with
  | nil => exact ⟨rfl, h⟩
  | cons x xs ih =>
    obtain ⟨now, later⟩ := unaided
    obtain ⟨answers, last⟩ := ih (h.perform now) later
    refine ⟨?_, last⟩
    simp only [Editor.run, List.map_cons, (h.same_perform now).1, answers]

theorem unaidedRun_of_barren {xs : List Event} (barren : ∀ l, e.lookup = some l → l.Barren) :
    e.UnaidedRun xs := by
  induction xs generalizing e with
  | nil => trivial
  | cons x xs ih =>
    refine ⟨fun l lookup => ((barren l lookup).run _).1, ih fun m after => ?_⟩
    rw [(e.asks_perform x).lookup] at after
    obtain ⟨l, lookup, rfl⟩ := Option.map_eq_some_iff.mp after
    exact ((barren l lookup).run _).2

theorem nothing_after_unavailable {fault : LookupFault} (told : e.harvest.1 = .unavailable fault)
    {ws : List Event} (workers : ∀ x ∈ ws, x.isWorkers = true) :
    (e.harvest.2.run ws).2.harvest.1 = .nothing := by
  cases lookup : e.lookup with
  | none =>
    rw [harvest, withLookup, lookup] at told
    cases told
  | some l =>
    rw [harvest_of_lookup lookup] at told ⊢
    obtain ⟨f, view, waited⟩ := run_of_isWorkers { e with lookup := some l.harvest.2 } workers
    have quiet : (f l.harvest.2).Quiet := (Lookup.quiet_of_unavailable told).of_view (view _)
    rw [waited, harvest_of_lookup (l := f l.harvest.2) rfl]
    exact quiet.harvest.1

/-- Over every source, store and run: as long as the lookup brings nothing, which is always if the
source has no list to give, every event comes to the same as without a lookup, harvests aside, and
at every step so do formula, session, identifiers, store and warnings, and there are no candidates;
and once a harvest has found a deadline over, a reply that comes after it is not taken in. -/
theorem unaided_as_without_source (source : Source) (delay : Nat) (ids : IdSupply)
    (store : Option σ) (xs : List Event) :
    let e := Editor.new ids (some (.new source delay)) store
    let d := Editor.new ids none store
    ((∀ n text found, source n text ≠ .reply (.ok found)) → e.UnaidedRun xs) ∧
    (e.UnaidedRun xs →
      (d.run xs).1.map Outcome.withoutHarvest = (e.run xs).1.map Outcome.withoutHarvest ∧
      ∀ ys, ys <+: xs → SameWork (e.run ys).2 (d.run ys).2 ∧
        (e.run ys).2.candidates = [] ∧ (d.run ys).2.candidates = []) ∧
    ∀ fault ws, (e.run xs).2.harvest.1 = .unavailable fault → (∀ x ∈ ws, x.isWorkers = true) →
      ((e.run xs).2.harvest.2.run ws).2.harvest.1 = .nothing := by
  intro e d
  have start : Bereft e d := ⟨⟨⟨rfl, rfl, rfl, rfl⟩, rfl⟩, rfl, rfl⟩
  refine ⟨?_, ?_, ?_⟩
  · intro none
    refine unaidedRun_of_barren fun l lookup => ?_
    obtain rfl := Option.some.inj lookup
    exact Lookup.barren_new delay none
  · intro unaided
    refine ⟨(start.run unaided).1, ?_⟩
    rintro ys ⟨zs, rfl⟩
    have after := (start.run unaided.left).2
    exact ⟨after.toSameWork, after.candidates⟩
  · intro fault ws told workers
    exact nothing_after_unavailable told workers

def failing : Source :=
  fun n _ => if n = 0 then .reply (.error (.lookup (.reported "réseau"))) else .silence

theorem failing_as_without_source :
    let xs := [Event.act (.type "rev"), .drain, .act (.operator '+'), .act (.type "cost"),
      .advanceTo 5000]
    let e := (Editor.new ⟨0, 0⟩ (some (.new failing 800)) (none : Option Memory)).run xs
    let d := (Editor.new ⟨0, 0⟩ none (none : Option Memory)).run xs
    (∀ n text found, failing n text ≠ .reply (.ok found)) ∧
      e.2.harvest.1 = .unavailable (.noAnswer 800) ∧
      e.2.formula = [.var "0-0" "rev" .zero none, .operator (.arithmetic .add)] ∧
      d.1.map Outcome.withoutHarvest = e.1.map Outcome.withoutHarvest ∧ SameWork e.2 d.2 ∧
      (e.2.harvest.2.run [.drain]).2.harvest.1 = .nothing := by
  intro xs e d
  have fails : ∀ n text found, failing n text ≠ .reply (.ok found) := by
    intro n text found told
    unfold failing at told
    split at told <;> cases told
  have late : e.2.harvest.1 = .unavailable (.noAnswer 800) := by decide +kernel
  have formula : e.2.formula = [.var "0-0" "rev" .zero none, .operator (.arithmetic .add)] := by
    decide +kernel
  obtain ⟨always, same, settled⟩ :=
    unaided_as_without_source failing 800 ⟨0, 0⟩ (none : Option Memory) xs
  obtain ⟨outcomes, steps⟩ := same (always fails)
  exact ⟨fails, late, formula, outcomes, (steps xs (List.prefix_refl xs)).1,
    settled _ [.drain] late (List.forall_mem_singleton.mpr rfl)⟩

/-- The source answers when the deadline is long over, but before any harvest: its list is taken in,
and a commit makes another tag than without a source. -/
theorem late_reply_is_taken_in :
    let late := [Event.act (.type "rev"), .advanceTo 5000, .drain, .harvest]
    let entries := [(⟨"r", "Revenue", "finance", 1200⟩ : Suggestion)]
    let e := (Editor.new ⟨0, 0⟩ (some (.new (.catalogue entries) 800)) (none : Option Memory)).run
      late
    let d := (Editor.new ⟨0, 0⟩ none (none : Option Memory)).run late
    e.1.getLast? = some (.harvested .candidates) ∧ e.2.candidates = entries ∧
      d.2.candidates = [] ∧
      (e.2.apply .commit).2.formula =
        [.var "0-0" "Revenue" (.ofFloat 1200) (some "finance")] ∧
      (d.2.apply .commit).2.formula = [.var "0-0" "rev" .zero none] := by
  decide +kernel

end Editor

end TagFormula
