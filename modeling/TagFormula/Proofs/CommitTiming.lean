import TagFormula.Proofs.Asking
import TagFormula.Proofs.Batching
import TagFormula.Proofs.LiteralEntry
import TagFormula.Proofs.NameMatch

/-!
A commit before the candidates are there, and one after. At once the text is searched for without
the blanks around it, and the very name comes first; when the candidates have been taken in, the
first one that holds the text as it was typed is taken, in the order of the catalogue. Where there
is none, it is as at once.
-/
namespace TagFormula

namespace Lookup

variable {f : String → Except Fault (List Suggestion)} {delay : Nat} {w : Watched}

/-! ## What a harvest brings -/

theorem Watched.Sound.brought (h : w.Sound (byText f) delay) {e : Expected}
    (waiting : w.lookup.view.expected = some e) (brought : w.lookup.harvest.1 = .candidates) :
    f e.text = .ok w.lookup.harvest.2.candidates := by
  have step := w.lookup.harvests
  generalize w.lookup.harvest = outcome at step brought ⊢
  obtain ⟨told, after⟩ := outcome
  cases step with
  | found same arrived demand result =>
    obtain rfl := Option.some.inj (waiting.symm.trans same)
    have answered := h.account.replies _ arrived
    have given := h.account.submitted_of_put answered.mem
    rw [demand] at given
    have answer := answered.byText
    rw [demand, result, Demand.text, h.text_of_given waiting given] at answer
    exact answer.symm
  | failed => cases brought
  | late => cases brought
  | nothing => cases brought

theorem Watched.Sound.brings (h : w.Sound (byText f) delay) (coming : Coming w.lookup)
    (done : w.lookup.inHand ++ w.lookup.queue = []) {e : Expected}
    (waiting : w.lookup.view.expected = some e) (always : ∀ text, ∃ found, f text = .ok found) :
    w.lookup.harvest.1 = .candidates := by
  have early := coming.not_isLate done
  have step := w.lookup.harvests
  generalize w.lookup.harvest = outcome at step ⊢
  obtain ⟨told, after⟩ := outcome
  cases step with
  | found => rfl
  | @failed e r text cause same arrived demand result =>
    have answered := (h.account.replies _ arrived).byText
    obtain ⟨found, given⟩ := always r.demand.text
    rw [result, given] at answered
    cases answered
  | late _ late => cases early.symm.trans late
  | nothing missing =>
    rcases coming e waiting with ⟨r, arrived, counts⟩ | last
    · cases (missing r arrived).symm.trans counts
    · rw [done] at last
      cases last

theorem Watched.run_spec (f : String → Except Fault (List Suggestion)) (delay : Nat)
    (ys : List Event) :
    let w := (Watched.new (byText f) delay).run ys
    w.lookup = ((Lookup.new (byText f) delay).run ys).2 ∧ w.Sound (byText f) delay ∧
      Numbered w.lookup w.submitted ∧ Prompt f w.lookup ∧ Coming w.lookup :=
  ⟨lookup_run _ ys, (sound_new (byText f) delay).run ys,
    kept_run Numbered.kept ⟨List.nodup_nil, List.forall_mem_nil _⟩ ys,
    kept_run (Coming.kept f) (settling_new f delay).coming ys⟩

end Lookup

namespace Editor

variable {σ : Type} {entries : List Suggestion} {delay : Nat} {ys : List Lookup.Event}
  {e : Editor σ}

/-! ## What a text becomes -/

/-- The tag of a text that has just been typed. -/
def tokenAtOnce (entries : List Suggestion) (ids : IdSupply) (text : String) : Token :=
  match Suggestion.best? (Text.trim text) entries with
  | some s => (s.insert ids).1
  | none => .var ids.id (Text.trim text) .zero none

/-- The tag of a text whose candidates have come back. -/
def tokenReceived (entries : List Suggestion) (ids : IdSupply) (text : String) : Token :=
  match Suggestion.filter text entries with
  | s :: _ => (s.insert ids).1
  | [] => tokenAtOnce entries ids text

theorem tokenReceived_eq {ids : IdSupply} {text : String}
    (best : ∀ s, (Suggestion.filter text entries).head? = some s →
      Suggestion.best? (Text.trim text) entries = some s) :
    tokenReceived entries ids text = tokenAtOnce entries ids text := by
  unfold tokenReceived
  cases found : Suggestion.filter text entries with
  | nil => rfl
  | cons s rest =>
    rw [found] at best
    simp only [tokenAtOnce, best s rfl]

/-- A text that asks for suggestions: no number, no operator and not blank. -/
structure Searched (text : String) : Prop where
  full : Text.trim text ≠ ""
  noOperator : Operator.ofText? (Text.trim text) = none
  noNumber : Number.read? (Text.trim text) = none

theorem Searched.not_blank {text : String} (h : Searched text) :
    ¬ Text.isBlankText text = true :=
  fun blank => h.full (Text.trim_of_isBlankText blank)

theorem tokenFor_catalogue (h : Follows (.catalogue entries) delay ys e) {text : String}
    (full : Text.trim text ≠ "") (noNumber : Number.read? (Text.trim text) = none)
    (ids : IdSupply) : tokenFor e.lookup ids text = tokenAtOnce entries ids text := by
  obtain ⟨same, sound, numbered, prompt, _⟩ := Lookup.Watched.run_spec
    (fun text => .ok (Suggestion.filter text entries)) delay ys
  have found := Lookup.Watched.searchNow_found sound.account numbered prompt (Text.trim text)
  rw [same] at found
  have nonempty : ¬ (Text.trim text).isEmpty = true := by simpa using full
  have lookup : e.lookup = some ((Lookup.new (Lookup.byText _) delay).run ys).2 := h.lookup
  simp only [tokenFor, noNumber, if_neg nonempty, lookup, found?, found,
    Suggestion.best?_filter]
  rfl

theorem formula_commit [Store σ] (h : Follows (.catalogue entries) delay ys e)
    (searched : Searched e.session.entry) :
    (e.apply .commit).2.formula =
      e.formula ++ [e.firstOr (tokenAtOnce entries e.ids e.session.entry)] := by
  rw [formula_apply_commit e (.inl rfl), committed_of_full searched.not_blank,
    tokenFor_catalogue h searched.full searched.noNumber]

/-! ## The worker in between -/

def Event.isWorkers : Event → Bool
  | .take _ | .serveNext | .drain | .advanceTo _ => true
  | _ => false

theorem perform_of_isWorkers [Store σ] (e : Editor σ) {x : Event} (workers : x.isWorkers = true) :
    ∃ f, (∀ l, (f l).view = l.view) ∧ (e.perform x).2 = e.onLookup f := by
  cases x with
  | take count => exact ⟨_, fun l => l.view_take count, rfl⟩
  | serveNext => exact ⟨_, Lookup.view_serveNext, rfl⟩
  | drain => exact ⟨_, Lookup.view_drain, rfl⟩
  | advanceTo time => exact ⟨_, fun l => l.view_advanceTo time, rfl⟩
  | _ => cases workers

theorem run_of_isWorkers [Store σ] (e : Editor σ) {ws : List Event}
    (workers : ∀ x ∈ ws, x.isWorkers = true) :
    ∃ f, (∀ l, (f l).view = l.view) ∧ (e.run ws).2 = e.onLookup f := by
  induction ws generalizing e with
  | nil => exact ⟨id, fun _ => rfl, by simp [run, onLookup]⟩
  | cons x ws ih =>
    obtain ⟨now, later⟩ := List.forall_mem_cons.mp workers
    obtain ⟨f, first, performed⟩ := e.perform_of_isWorkers now
    obtain ⟨g, second, rest⟩ := ih (e.perform x).2 later
    refine ⟨g ∘ f, fun l => (second _).trans (first l), ?_⟩
    rw [run, rest, performed]
    simp [onLookup, Option.map_map]

structure Awaits (text : String) (e d : Editor σ) : Prop where
  formula : d.formula = e.formula
  ids : d.ids = e.ids
  entry : d.session.entry = text
  bare : d.rawCandidates = []
  expected : ∀ l, d.lookup = some l →
    ∃ x, l.view.expected = some x ∧ x.text = Text.trim text

variable {text : String} {d : Editor σ}

theorem Awaits.onLookup (h : Awaits text e d) {f : Lookup → Lookup}
    (view : ∀ l, (f l).view = l.view) : Awaits text e (d.onLookup f) where
  formula := h.formula
  ids := h.ids
  entry := h.entry
  bare := by
    have before := h.bare
    unfold rawCandidates Editor.onLookup at *
    cases lookup : d.lookup with
    | none => rfl
    | some l =>
      rw [lookup] at before
      exact (congrArg Lookup.View.candidates (view l)).trans before
  expected l after := by
    obtain ⟨m, before, rfl⟩ := Option.map_eq_some_iff.mp after
    rw [view]
    exact h.expected m before

theorem awaits_type [Store σ] (h : Follows (.catalogue entries) delay ys e)
    (empty : e.session.entry = "") (searched : Searched text) :
    Awaits text e (e.perform (.act (.type text))).2 := by
  have asks : typeAsks text = [.request (Text.trim text)] := by
    rw [typeAsks, if_neg]
    simp [searched.full, searched.noOperator]
  have typed : ((e.note (.action (.type text))).type text).formula = e.formula ∧
      ((e.note (.action (.type text))).type text).ids = e.ids := by
    simp only [type]
    split <;> exact ⟨rfl, rfl⟩
  obtain ⟨lookup, entry⟩ := (e.note (.action (.type text))).asks_type text
  rw [asks, lookup_note, h.lookup] at lookup
  simp only [perform, apply, carryOut]
  generalize (e.note (.action (.type text))).type text = d at *
  refine ⟨typed.1, typed.2, entry, ?_, ?_⟩
  · have kept : (deliver [] d).2.rawCandidates = d.rawCandidates := rfl
    rw [kept, rawCandidates, lookup]
    exact (h.quiet empty).2
  · intro l after
    obtain rfl := Option.some.inj (after.symm.trans lookup)
    exact ⟨_, rfl, rfl⟩

theorem lookup_onLookup {l : Lookup} (h : d.lookup = some l) (f : Lookup → Lookup) :
    (d.onLookup f).lookup = some (f l) :=
  congrArg (Option.map f) h

theorem harvest_of_lookup {l : Lookup} (h : d.lookup = some l) :
    d.harvest = (l.harvest.1, { d with lookup := some l.harvest.2 }) := by
  simp only [harvest, withLookup, h]

theorem Follows.brought (h : Follows (.catalogue entries) delay ys d) {l : Lookup} {x : Expected}
    (lookup : d.lookup = some l) (waiting : l.view.expected = some x)
    (brought : d.harvest.1 = .candidates) :
    d.harvest.2.rawCandidates = Suggestion.filter x.text entries := by
  obtain ⟨same, sound, _⟩ := Lookup.Watched.run_spec
    (fun text => .ok (Suggestion.filter text entries)) delay ys
  obtain rfl := Option.some.inj (lookup.symm.trans (h.lookup.trans (congrArg some same.symm)))
  rw [harvest_of_lookup lookup] at brought ⊢
  exact (Except.ok.inj (sound.brought waiting brought)).symm

theorem Follows.brings (h : Follows (.catalogue entries) delay ys d) {l : Lookup} {x : Expected}
    (lookup : d.lookup = some l) (waiting : l.view.expected = some x) :
    (d.onLookup Lookup.drain).harvest.1 = .candidates := by
  obtain ⟨same, sound, _, prompt, coming⟩ := Lookup.Watched.run_spec
    (fun text => .ok (Suggestion.filter text entries)) delay ys
  obtain rfl := Option.some.inj (lookup.symm.trans (h.lookup.trans (congrArg some same.symm)))
  generalize (Lookup.Watched.new _ delay).run ys = w at *
  have drained : w.lookup.drain.inHand ++ w.lookup.drain.queue = [] := by
    rw [prompt.drain.2]
    rfl
  have still : Lookup.Coming w.lookup.drain :=
    (Lookup.Watched.kept_step (Lookup.Coming.kept _) ⟨prompt, coming⟩ .drain).2
  have waits : w.lookup.drain.view.expected = some x := by
    rw [Lookup.view_drain]
    exact waiting
  rw [harvest_of_lookup (lookup_onLookup lookup Lookup.drain)]
  exact (sound.step .drain).brings still drained waits fun _ => ⟨_, rfl⟩

theorem Awaits.brought (h : Awaits text e d) (follows : Follows (.catalogue entries) delay ys d)
    (brought : d.harvest.1 = .candidates) :
    d.harvest.2.rawCandidates = Suggestion.filter (Text.trim text) entries := by
  obtain ⟨x, waiting, named⟩ := h.expected _ follows.lookup
  exact named ▸ follows.brought follows.lookup waiting brought

theorem Awaits.brings (h : Awaits text e d) (follows : Follows (.catalogue entries) delay ys d) :
    (d.onLookup Lookup.drain).harvest.1 = .candidates := by
  obtain ⟨x, waiting, _⟩ := h.expected _ follows.lookup
  exact follows.brings follows.lookup waiting

/-- Over every run, an empty entry field, and a text that is searched for: a commit makes the tag
of the best entry for it as long as nothing has been harvested, and that of the first entry that
holds the text as typed once a harvest has brought the candidates, as it does when the worker is
done. -/
theorem commit_before_and_after_harvest [Store σ] (entries : List Suggestion) (delay : Nat)
    (ids : IdSupply) (store : Option σ) (xs : List Event) :
    let e := ((Editor.new ids (some (.new (.catalogue entries) delay)) store).run xs).2
    ∀ text ws, e.session.entry = "" → Searched text → (∀ x ∈ ws, x.isWorkers = true) →
      let d := (e.run (.act (.type text) :: ws)).2
      (d.apply .commit).2.formula = e.formula ++ [tokenAtOnce entries e.ids text] ∧
      (d.harvest.1 = .candidates →
        (d.harvest.2.apply .commit).2.formula = e.formula ++ [tokenReceived entries e.ids text]) ∧
      (d.onLookup Lookup.drain).harvest.1 = .candidates ∧
      ((∀ s, (Suggestion.filter text entries).head? = some s →
          Suggestion.best? (Text.trim text) entries = some s) →
        tokenReceived entries e.ids text = tokenAtOnce entries e.ids text) := by
  intro e text ws empty searched workers d
  obtain ⟨ys, follows⟩ := (follows_new (.catalogue entries) delay ids store).run xs
  obtain ⟨zs, after⟩ := follows.run (.act (.type text) :: ws)
  obtain ⟨f, view, waited⟩ := run_of_isWorkers (e.perform (.act (.type text))).2 workers
  have awaits : Awaits text e d := by
    simp only [d, run, waited]
    exact (awaits_type follows empty searched).onLookup view
  have searches : Searched d.session.entry := awaits.entry.symm ▸ searched
  refine ⟨?_, ?_, awaits.brings after, tokenReceived_eq⟩
  · have nothing : d.candidates = [] := by
      rw [candidates, awaits.bare]
      rfl
    rw [formula_commit after searches, awaits.formula, awaits.ids, awaits.entry, firstOr, nothing]
  · intro brought
    have same := d.sameButLookup_withLookup Lookup.harvest
    have entry : d.harvest.2.session.entry = text :=
      (congrArg Session.entry same.session).trans awaits.entry
    have supply : d.harvest.2.ids = e.ids := by
      rw [harvest_of_lookup after.lookup]
      exact awaits.ids
    have received : d.harvest.2.candidates = Suggestion.filter text entries := by
      rw [candidates, entry, awaits.brought after brought, Suggestion.filter_filter_trim]
    have later : Follows (.catalogue entries) delay _ d.harvest.2 := after.perform .harvest
    have kept : d.harvest.2.formula = e.formula := same.formula.trans awaits.formula
    rw [formula_commit later (entry.symm ▸ searched), kept, firstOr, received, supply, entry]
    rfl

def costs : List Suggestion :=
  [⟨"t", "Cost total", "finance", 2⟩, ⟨"c", "Cost", "finance", 1⟩]

theorem commit_of_longer_name :
    let e := Editor.new ⟨0, 0⟩ (some (.new (.catalogue costs) 800)) (none : Option Memory)
    let d := (e.run [.act (.type "total"), .drain]).2
    d.harvest.1 = .candidates ∧
      (d.apply .commit).2.formula = [.var "0-0" "Cost total" (.ofFloat 2) (some "finance")] ∧
      (d.harvest.2.apply .commit).2.formula =
        [.var "0-0" "Cost total" (.ofFloat 2) (some "finance")] := by
  have brought : ((Editor.new ⟨0, 0⟩ (some (.new (.catalogue costs) 800))
      (none : Option Memory)).run [.act (.type "total"), .drain]).2.harvest.1 = .candidates := by
    decide +kernel
  have searched : Searched "total" := ⟨by decide, by decide, by decide +kernel⟩
  have token : tokenAtOnce costs ⟨0, 0⟩ "total" =
      .var "0-0" "Cost total" (.ofFloat 2) (some "finance") := by decide +kernel
  have best : (Suggestion.filter "total" costs).head? =
      Suggestion.best? (Text.trim "total") costs := by decide +kernel
  obtain ⟨atOnce, received, _, same⟩ := commit_before_and_after_harvest costs 800 ⟨0, 0⟩
    (none : Option Memory) [] "total" [.drain] rfl searched (List.forall_mem_singleton.mpr rfl)
  have received := received brought
  rw [same fun s first => best.symm.trans first] at received
  rw [show ((Editor.new ⟨0, 0⟩ _ _).run []).2.ids = ⟨0, 0⟩ from rfl, token] at atOnce received
  exact ⟨brought, atOnce, received⟩

/-- The very name is preferred at once, but not once the candidates are there. -/
theorem commit_of_contained_name :
    let e := Editor.new ⟨0, 0⟩ (some (.new (.catalogue costs) 800)) (none : Option Memory)
    (e.run [.act (.type "Cost"), .act .commit]).2.formula =
        [.var "0-0" "Cost" (.ofFloat 1) (some "finance")] ∧
      (e.run [.act (.type "Cost"), .drain, .harvest]).1.getLast? =
        some (.harvested .candidates) ∧
      (e.run [.act (.type "Cost"), .drain, .harvest, .act .commit]).2.formula =
        [.var "0-0" "Cost total" (.ofFloat 2) (some "finance")] := by
  decide +kernel

end Editor

end TagFormula
