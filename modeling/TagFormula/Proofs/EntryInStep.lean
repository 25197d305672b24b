import TagFormula.Proofs.Asking
import TagFormula.Proofs.LatestRequest

/-!
The entry field and the suggestions stay in step. Whatever is expected is expected for the text in
the field, blanks at its ends aside; whatever candidates are kept once it has come were found for
that text; and for a text that no suggestions are asked for there is nothing at all. To take in
what the worker has sent touches nothing but the lookup.
-/
namespace TagFormula

namespace Lookup.Watched

variable {source : Source} {delay : Nat} {w : Watched}

theorem Sound.settled (h : w.Sound source delay) {x : Event} {brought : Harvest}
    (outcome : (w.lookup.perform x).1 = .harvested brought) :
    (w.step x).lookup.view = w.lookup.view ∨
      ∃ e, w.lookup.view.expected = some e ∧ (w.step x).lookup.view.expected = none ∧
        ((w.step x).lookup.view.candidates = [] ∧ (w.step x).lookup.view.candidatesText = "" ∨
          (w.step x).lookup.view.candidatesText = e.text) := by
  obtain ⟨m, view, account, harvest⟩ := (Account.kept source delay).harvested h.account outcome
  have step := m.harvests
  rw [harvest] at step
  have expected : ∀ e, m.expected = some e → w.lookup.view.expected = some e := by
    intro e waiting
    rw [← view]
    exact waiting
  have after : (w.step x).lookup = (w.lookup.perform x).2 := rfl
  rw [after]
  generalize (w.lookup.perform x).2 = l at step ⊢
  cases step with
  | @found e r text found waiting arrived demand result =>
    have given := account.submitted_of_put (account.replies r arrived).mem
    rw [demand] at given
    exact .inr ⟨e, expected e waiting, rfl, .inr (h.text_of_given (expected e waiting) given)⟩
  | @failed e _ _ _ waiting => exact .inr ⟨e, expected e waiting, rfl, .inl ⟨rfl, rfl⟩⟩
  | @late e waiting => exact .inr ⟨e, expected e waiting, rfl, .inl ⟨rfl, rfl⟩⟩
  | nothing => exact .inl view

end Lookup.Watched

namespace Editor

variable {σ : Type}

/-- What a client sees of its lookup while this is the text it wants suggestions for. -/
structure InStep (wanted : String) (v : Lookup.View) : Prop where
  unasked : Unasked wanted → v.expected = none ∧ v.candidates = [] ∧ v.candidatesText = ""
  expected : ∀ x, v.expected = some x → x.text = wanted
  found : v.expected = none → v.candidates ≠ [] → v.candidatesText = wanted

namespace InStep

theorem cleared (wanted : String) (generation : Nat) :
    InStep wanted ⟨generation, none, [], ""⟩ where
  unasked _ := ⟨rfl, rfl, rfl⟩
  expected x waiting := by cases waiting
  found _ full := (full rfl).elim

theorem requested {wanted : String} (asked : ¬ Unasked wanted) {v : Lookup.View} {x : Expected}
    (waiting : v.expected = some x) (text : x.text = wanted) : InStep wanted v where
  unasked unasked := (asked unasked).elim
  expected y also := by
    obtain rfl := Option.some.inj (waiting.symm.trans also)
    exact text
  found settled := by cases waiting.symm.trans settled

theorem settled {wanted : String} {v u : Lookup.View} (h : InStep wanted v) {x : Expected}
    (waiting : v.expected = some x) (settled : u.expected = none)
    (text : u.candidates = [] ∧ u.candidatesText = "" ∨ u.candidatesText = x.text) :
    InStep wanted u where
  unasked unasked := by cases waiting.symm.trans (h.unasked unasked).1
  expected y also := by cases settled.symm.trans also
  found _ full := by
    rcases text with ⟨empty, _⟩ | named
    · exact (full empty).elim
    · exact named.trans (h.expected x waiting)

end InStep

variable {source : Source} {delay : Nat} {w : Lookup.Watched}

theorem inStep_harvested (sound : w.Sound source delay) {wanted : String}
    (h : InStep wanted w.lookup.view) {y : Lookup.Event} {brought : Harvest}
    (outcome : (w.lookup.perform y).1 = .harvested brought) :
    InStep wanted (w.step y).lookup.view := by
  rcases sound.settled outcome with same | ⟨x, waiting, settled, text⟩
  · rw [same]
    exact h
  · exact h.settled waiting settled text

theorem inStep_asked (sound : w.Sound source delay) {entry text : String}
    (h : InStep (Text.trim entry) w.lookup.view) {ys : List Lookup.Event}
    (asked : Asked entry ys text) : InStep (Text.trim text) (w.run ys).lookup.view := by
  cases asked with
  | nothing unseen =>
    rw [w.lookup_run, w.lookup.view_run_of_isUnseen unseen]
    exact h
  | cancelled ys =>
    rw [w.run_append]
    exact .cleared _ _
  | requested wanted => exact .requested wanted rfl rfl
  | harvested harvests =>
    rcases harvests with rfl | rfl
    · exact inStep_harvested sound h rfl
    · exact inStep_harvested sound h rfl

structure Attends (source : Source) (delay : Nat) (w : Lookup.Watched) (e : Editor σ) : Prop where
  sound : w.Sound source delay
  lookup : e.lookup = some w.lookup
  inStep : InStep (Text.trim e.session.entry) w.lookup.view

theorem attends_new (source : Source) (delay : Nat) (ids : IdSupply) (store : Option σ) :
    Attends source delay (.new source delay)
      (Editor.new ids (some (.new source delay)) store) where
  sound := Lookup.Watched.sound_new source delay
  lookup := rfl
  inStep := .cleared _ _

theorem Attends.perform [Store σ] {e : Editor σ} (h : Attends source delay w e) (x : Event) :
    Attends source delay (w.run (e.asking x)) (Editor.perform e x).2 := by
  obtain ⟨lookup, entry⟩ := e.asks_perform x
  refine ⟨h.sound.run _, ?_, ?_⟩
  · rw [lookup, h.lookup, w.lookup_run]
    rfl
  · rw [entry]
    exact inStep_asked h.sound h.inStep (e.asked x)

theorem Attends.run [Store σ] {e : Editor σ} (h : Attends source delay w e) (xs : List Event) :
    ∃ w, Attends source delay w (e.run xs).2 := by
  refine run_keeps (P := fun e => ∃ w, Attends source delay w e) ?_ ⟨w, h⟩ xs
  rintro e x ⟨w, attends⟩
  exact ⟨_, attends.perform x⟩

/-- After every run of an editor with a source: for a text no suggestions are asked for, nothing is
expected and nothing is kept; what is expected is expected for the text in the entry field; and
once it has come, the candidates are those for that text. A harvest is the lookup's only. -/
theorem entry_in_step [Store σ] (source : Source) (delay : Nat) (ids : IdSupply)
    (store : Option σ) (xs : List Event) :
    let e := ((Editor.new ids (some (.new source delay)) store).run xs).2
    let wanted := Text.trim e.session.entry
    ∃ l, e.lookup = some l ∧
      (Unasked wanted → e.isWaiting = false ∧ e.rawCandidates = [] ∧ e.candidatesText = "") ∧
      (∀ x, l.expected = some x → x.text = wanted) ∧
      (e.isWaiting = false → e.rawCandidates ≠ [] → e.candidatesText = wanted) ∧
      e.harvest = (l.harvest.1, { e with lookup := some l.harvest.2 }) := by
  intro e wanted
  obtain ⟨w, attends⟩ := (attends_new source delay ids store).run xs
  obtain ⟨_, lookup, inStep⟩ : Attends source delay w e := attends
  refine ⟨w.lookup, lookup, ?_, inStep.expected, ?_, ?_⟩
  · intro unasked
    obtain ⟨settled, empty, unnamed⟩ := inStep.unasked unasked
    have settled : w.lookup.expected = none := settled
    simp only [isWaiting, Lookup.isWaiting, rawCandidates, candidatesText, lookup, settled]
    exact ⟨rfl, empty, unnamed⟩
  · intro settled full
    have settled : w.lookup.expected = none := by
      simpa only [isWaiting, Lookup.isWaiting, lookup, Option.isSome_eq_false_iff,
        Option.isNone_iff_eq_none] using settled
    simp only [rawCandidates, candidatesText, lookup] at full ⊢
    exact inStep.found settled full
  · simp only [harvest, withLookup, lookup]

end Editor

end TagFormula
