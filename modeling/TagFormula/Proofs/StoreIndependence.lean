import TagFormula.Proofs.Lockstep
import TagFormula.Proofs.Saving
import TagFormula.Storage.Memory

/-!
The store has no say in the edition. Two editors that differ in nothing but their stores go through
the same formulas, sessions and lookups and answer alike, whichever of the saves their stores
refuse; all a save that fails leaves behind is a warning. Only what is loaded comes from a store.
-/
namespace TagFormula

/-! ## Warnings aside -/

def Effect.isWarning : Effect → Bool
  | .warning _ => true
  | _ => false

namespace Editor

def essential (effects : List Effect) : List Effect := effects.filter (!·.isWarning)

theorem essential_warned (effects : List Effect) (faults : List StorageFault) :
    essential (effects ++ faults.map Effect.warning) = essential effects := by
  have none_left : essential (faults.map Effect.warning) = [] := by
    simp [essential, Effect.isWarning]
  rw [essential, List.filter_append]
  exact (congrArg (essential effects ++ ·) none_left).trans (List.append_nil _)

def Outcome.withoutWarnings : Outcome → Outcome
  | .effects l => .effects (essential l)
  | .warnings _ => .warnings []
  | o => o

theorem withoutWarnings_ofEffects (r : Except Fault (List Effect)) :
    (Outcome.ofEffects r).withoutWarnings = .ofEffects (r.map essential) := by
  cases r <;> rfl

/-! ## The same edition -/

variable {σ τ : Type} {e : Editor σ} {d : Editor τ}

/-- All but the stores, the warnings and the logs is the same. -/
structure SameEdition (e : Editor σ) (d : Editor τ) : Prop where
  formula : d.formula = e.formula
  session : d.session = e.session
  lookup : d.lookup = e.lookup
  ids : d.ids = e.ids

structure SameDelivery (r : Except Fault (List Effect) × Editor σ)
    (s : Except Fault (List Effect) × Editor τ) : Prop where
  told : s.1.map essential = r.1.map essential
  edition : SameEdition r.2 s.2

namespace SameEdition

theorem note (h : SameEdition e d) (n m : Notice) : SameEdition (e.note n) (d.note m) :=
  ⟨h.formula, h.session, h.lookup, h.ids⟩

theorem inSession (h : SameEdition e d) (f : Session → Session) :
    SameEdition { e with session := f e.session } { d with session := f d.session } :=
  ⟨h.formula, congrArg f h.session, h.lookup, h.ids⟩

theorem onLookup (h : SameEdition e d) (f : Lookup → Lookup) :
    SameEdition (e.onLookup f) (d.onLookup f) :=
  ⟨h.formula, h.session, congrArg (Option.map f) h.lookup, h.ids⟩

theorem candidates (h : SameEdition e d) : d.candidates = e.candidates := by
  simp only [Editor.candidates, rawCandidates, h.session, h.lookup]

theorem withLookup (h : SameEdition e d) (f : Lookup → Harvest × Lookup) :
    Alike SameEdition (e.withLookup f) (d.withLookup f) := by
  unfold Editor.withLookup
  rw [h.lookup]
  cases e.lookup with
  | none => exact .mk _ h
  | some l => exact .mk _ ⟨h.formula, h.session, rfl, h.ids⟩

theorem lockstep [Store σ] [Store τ] : Lockstep (SameEdition (σ := σ) (τ := τ)) where
  formula h := h.formula
  session h := h.session
  ids h := h.ids
  note h := h.note
  inSession h s := h.inSession fun _ => s
  inIds h i := ⟨h.formula, h.session, h.lookup, rfl⟩
  inFormula {e d} h f := by
    refine ⟨?_, ?_, ?_, ?_⟩
    · rw [formula_persist, formula_persist]
    · rw [session_persist, session_persist, h.session]
    · rw [lookup_persist, lookup_persist, h.lookup]
    · rw [ids_persist, ids_persist, h.ids]
  cancel h := h.onLookup Lookup.cancel

theorem delivery : Delivery (SameEdition (σ := σ) (τ := τ)) SameDelivery where
  deliver h effects :=
    { told := by simp only [Editor.deliver, Except.map, essential_warned]
      edition := ⟨h.formula, h.session, h.lookup, h.ids⟩ }
  stop h _ := ⟨rfl, h⟩

/-! ## What consults the lookup -/

theorem searchBest (h : SameEdition e d) (text : String) :
    Alike SameEdition (e.searchBest text) (d.searchBest text) := by
  unfold Editor.searchBest
  rw [h.lookup]
  cases e.lookup with
  | none => exact .mk _ h
  | some l =>
    simp only
    rcases l.searchNow text with ⟨fault | found, after⟩
    · exact .mk _ ⟨h.formula, h.session, rfl, h.ids⟩
    · exact .mk _ ⟨h.formula, h.session, rfl, h.ids⟩

theorem type (h : SameEdition e d) (text : String) : SameEdition (e.type text) (d.type text) := by
  have typed := h.inSession fun s => { s with entry := text }
  simp only [Editor.type]
  split
  · exact typed.onLookup _
  · exact typed.onLookup _

variable [Store σ] [Store τ]

theorem resolve (h : SameEdition e d) (text : String) :
    Alike SameEdition (e.resolve text) (d.resolve text) := by
  have searched := h.searchBest (Text.trim text)
  unfold Editor.resolve
  simp only
  cases Number.read? (Text.trim text) with
  | some v => exact .mk _ h
  | none =>
    simp only
    split
    · exact lockstep.freshVar h _
    · generalize e.searchBest (Text.trim text) = r at searched
      generalize d.searchBest (Text.trim text) = s at searched
      cases searched with
      | mk best later =>
        cases best with
        | none => exact lockstep.freshVar later _
        | some found => exact lockstep.insertion later found

theorem entryToken (h : SameEdition e d) : Alike SameEdition e.entryToken d.entryToken := by
  unfold Editor.entryToken
  rw [h.candidates, h.session]
  cases e.candidates with
  | nil => exact h.resolve _
  | cons s rest => exact lockstep.insertion h s

theorem commit (h : SameEdition e d) : SameEdition e.commit d.commit :=
  lockstep.commit h h.entryToken

theorem chooseFirst (h : SameEdition e d) : SameEdition e.chooseFirst d.chooseFirst := by
  unfold Editor.chooseFirst
  rw [h.candidates]
  cases e.candidates with
  | nil => exact h
  | cons s rest => exact lockstep.choose h s

theorem typeOperator (h : SameEdition e d) (op : Operator) :
    SameEdition (e.typeOperator op) (d.typeOperator op) := by
  have emptied := lockstep.inSession h { e.session with entry := "" }
  exact lockstep.typeOperator h op (emptied.resolve e.session.entry)

theorem consults (h : SameEdition e d) (a : Action) : Consults SameEdition e d a := by
  cases a with
  | type text => exact h.type text
  | operator c => exact fun op _ => h.typeOperator op
  | commit => exact h.commit
  | evaluate => exact h.commit
  | acceptFirst => exact h.chooseFirst
  | _ => trivial

theorem carryOut (h : SameEdition e d) (a : Action) :
    SameDelivery (e.carryOut a) (d.carryOut a) :=
  lockstep.carryOut delivery h a (h.consults a)

/-! ## Runs -/

theorem perform (h : SameEdition e d) {x : Event} (unloaded : x ≠ .load) :
    (d.perform x).1.withoutWarnings = (e.perform x).1.withoutWarnings ∧
      SameEdition (e.perform x).2 (d.perform x).2 := by
  cases x with
  | act a =>
    obtain ⟨told, edition⟩ := (h.note (.action a) (.action a)).carryOut a
    refine ⟨?_, edition⟩
    simp only [Editor.perform, withoutWarnings_ofEffects]
    exact congrArg Outcome.ofEffects told
  | append t => exact ⟨rfl, lockstep.append h t⟩
  | removeAt i => exact (lockstep.removeAt h i).told fun r => (Outcome.ofFormer r).withoutWarnings
  | replaceAt i t =>
    exact (lockstep.replaceAt h i t).told fun r => (Outcome.ofFormer r).withoutWarnings
  | resolve text =>
    simp only [Editor.perform]
    exact (h.resolve text).told fun t => (Outcome.resolved t).withoutWarnings
  | load => exact (unloaded rfl).elim
  | takeWarnings => exact ⟨rfl, h.formula, h.session, h.lookup, h.ids⟩
  | harvest =>
    exact (h.withLookup Lookup.harvest).told fun r => (Outcome.harvested r).withoutWarnings
  | await => exact (h.withLookup Lookup.await).told fun r => (Outcome.harvested r).withoutWarnings
  | take count => exact ⟨rfl, h.onLookup _⟩
  | serveNext => exact ⟨rfl, h.onLookup _⟩
  | drain => exact ⟨rfl, h.onLookup _⟩
  | advanceTo time => exact ⟨rfl, h.onLookup _⟩

theorem run (h : SameEdition e d) {xs : List Event} (unloaded : .load ∉ xs) :
    (d.run xs).1.map Outcome.withoutWarnings = (e.run xs).1.map Outcome.withoutWarnings ∧
      SameEdition (e.run xs).2 (d.run xs).2 := by
  induction xs generalizing e d with
  | nil => exact ⟨rfl, h⟩
  | cons x xs ih =>
    have first : x ≠ .load := Ne.symm (List.ne_of_not_mem_cons unloaded)
    obtain ⟨answer, later⟩ := h.perform first
    obtain ⟨answers, last⟩ := ih later (List.not_mem_of_not_mem_cons unloaded)
    refine ⟨?_, last⟩
    simp only [Editor.run, List.map_cons, answer, answers]

theorem edits (h : SameEdition e d) {x : Event} (unloaded : x ≠ .load) :
    d.edits x = e.edits x := by
  obtain ⟨formula, session, lookup, ids⟩ := h
  cases e
  cases d
  cases formula
  cases session
  cases lookup
  cases ids
  cases x with
  | act a => cases a <;> rfl
  | load => exact (unloaded rfl).elim
  | _ => rfl

end SameEdition

/-- Over every run that loads nothing, and any two stores or none: the outcomes are the same,
warnings aside; at every step so are the formula, the session, the lookup with its candidates and
the supply of identifiers; and every edit is made at once and once, whatever becomes of its save. -/
theorem same_edition_over_any_store [Store σ] [Store τ] (ids : IdSupply) (lookup : Option Lookup)
    (a : Option σ) (b : Option τ) (xs : List Event) (unloaded : .load ∉ xs) :
    let first := Editor.new ids lookup a
    let second := Editor.new ids lookup b
    (second.run xs).1.map Outcome.withoutWarnings = (first.run xs).1.map Outcome.withoutWarnings ∧
    ∀ ys, ys <+: xs →
      let e := (first.run ys).2
      let d := (second.run ys).2
      SameEdition e d ∧ d.candidates = e.candidates ∧
      ∀ x, x ≠ .load → d.edits x = e.edits x ∧
        (e.perform x).2.formula = Edit.applyAll (e.edits x) e.formula ∧
        (d.perform x).2.formula = Edit.applyAll (e.edits x) e.formula := by
  intro first second
  have start : SameEdition first second := ⟨rfl, rfl, rfl, rfl⟩
  refine ⟨(start.run unloaded).1, ?_⟩
  intro ys inside e d
  have same : SameEdition e d := (start.run fun loaded => unloaded (inside.subset loaded)).2
  refine ⟨same, same.candidates, ?_⟩
  intro x edited
  have edits := same.edits edited
  refine ⟨edits, (e.stores_perform x).formula, ?_⟩
  rw [(d.stores_perform x).formula, edits, same.formula]

theorem same_edition_over_broken_memory :
    let xs := [Event.act (.type "x"), .act (.operator '+')]
    let e := (Editor.new ⟨0, 0⟩ none (some (⟨none, true, 0⟩ : Memory))).run xs
    let d := (Editor.new ⟨0, 0⟩ none (none : Option Memory)).run xs
    .load ∉ xs ∧ e.1 ≠ d.1 ∧
      d.1.map Outcome.withoutWarnings = e.1.map Outcome.withoutWarnings ∧
      d.2.formula = e.2.formula := by
  intro xs e d
  have unloaded : .load ∉ xs := by decide
  have warned : e.1 ≠ d.1 := by decide +kernel
  obtain ⟨outcomes, steps⟩ := same_edition_over_any_store ⟨0, 0⟩ none
    (some (⟨none, true, 0⟩ : Memory)) (none : Option Memory) xs unloaded
  exact ⟨unloaded, warned, outcomes, (steps xs (List.prefix_refl xs)).1.formula⟩

end Editor

end TagFormula
