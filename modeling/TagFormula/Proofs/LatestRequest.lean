import TagFormula.Proofs.WatchedLookup

/-!
The latest request wins. Whatever the worker, the replies and the clock do, a harvest speaks for
the last demand only, and only if nothing has cancelled or settled it since; the candidates are
those it was settled with. A reply to any other demand is as good as none.
-/
namespace TagFormula.Lookup

def Requested (history : List Moment) (before : List Moment) (text : String) : Prop :=
  ∃ since, history = before ++ ⟨.request text, .none⟩ :: since

/-- The demand for this text is still the one that is expected. -/
def Stands (history : List Moment) (before : List Moment) (text : String) : Prop :=
  ∃ since, history = before ++ ⟨.request text, .none⟩ :: since ∧ ∀ m ∈ since, m.isIdle = true

theorem Stands.requested {history before : List Moment} {text : String}
    (s : Stands history before text) : Requested history before text := by
  obtain ⟨since, split, _⟩ := s
  exact ⟨since, split⟩

theorem requested_snoc {history before : List Moment} {m : Moment} {text : String} :
    Requested (history ++ [m]) before text ↔
      Requested history before text ∨ history = before ∧ m = ⟨.request text, .none⟩ := by
  constructor
  · rintro ⟨since, split⟩
    rcases List.eq_nil_or_concat since with rfl | ⟨rest, last, rfl⟩
    · obtain ⟨same, moment⟩ := List.append_inj' split rfl
      exact .inr ⟨same, (List.cons.inj moment).1⟩
    · rw [List.concat_eq_append, ← List.cons_append, ← List.append_assoc] at split
      exact .inl ⟨rest, (List.append_inj' split rfl).1⟩
  · rintro (⟨since, rfl⟩ | ⟨rfl, rfl⟩)
    · exact ⟨since ++ [m], by simp⟩
    · exact ⟨[], rfl⟩

theorem Stands.snoc {history before : List Moment} {text : String} {m : Moment}
    (s : Stands history before text) (idle : m.isIdle = true) :
    Stands (history ++ [m]) before text := by
  obtain ⟨since, rfl, quiet⟩ := s
  refine ⟨since ++ [m], by simp, ?_⟩
  intro n member
  rcases List.mem_append.mp member with old | new
  · exact quiet n old
  · exact List.mem_singleton.mp new ▸ idle

theorem stands_last (history : List Moment) (text : String) :
    Stands (history ++ [⟨.request text, .none⟩]) history text :=
  ⟨[], rfl, fun _ member => absurd member List.not_mem_nil⟩

/-- What a harvest says of a demand, and what it leaves to the client. Only what is late goes
without a reply. -/
def Tells (source : Source) (delay : Nat) (put : List Demand) (d : Demand) (late : Prop) :
    Harvest → View → Prop
  | .nothing, _ => False
  | .candidates, v =>
    v.expected = none ∧ v.candidatesText = d.text ∧ Answered source put d (.ok v.candidates)
  | .unavailable fault, v =>
    v.expected = none ∧ v.candidates = [] ∧ v.candidatesText = "" ∧
      (late ∧ fault = .noAnswer delay ∨
        ∃ cause, Answered source put d (.error cause) ∧ fault = cause.asLookup)

theorem Tells.imp {source : Source} {delay : Nat} {put : List Demand} {d : Demand}
    {p q : Prop} {brought : Harvest} {v : View} (implies : p → q)
    (h : Tells source delay put d p brought v) : Tells source delay put d q brought v := by
  cases brought with
  | nothing => exact h
  | candidates => exact h
  | unavailable fault =>
    obtain ⟨settled, empty, unnamed, why⟩ := h
    refine ⟨settled, empty, unnamed, ?_⟩
    rcases why with ⟨late, noAnswer⟩ | failed
    · exact .inl ⟨implies late, noAnswer⟩
    · exact .inr failed

/-- The candidates are those some demand was settled with, and nothing has been cancelled or
settled since. -/
def Explained (source : Source) (put : List Demand) (history : List Moment) (v : View) : Prop :=
  ∃ before text since x after,
    history = before ++ ⟨.request text, .none⟩ :: since ++ ⟨x, .harvested .candidates⟩ :: after ∧
      (∀ m ∈ since, m.isIdle = true) ∧
      (∀ m ∈ after, m.event ≠ .cancel ∧ m.settles = false) ∧
      v.candidatesText = text ∧ Answered source put (.latest (turn before) text) (.ok v.candidates)

theorem Explained.snoc {source : Source} {put more : List Demand} {history : List Moment}
    {v u : View} {m : Moment} (h : Explained source put history v)
    (same : u.candidates = v.candidates ∧ u.candidatesText = v.candidatesText)
    (kept : m.event ≠ .cancel ∧ m.settles = false) :
    Explained source (put ++ more) (history ++ [m]) u := by
  obtain ⟨before, text, since, x, after, rfl, idle, quiet, named, answered⟩ := h
  refine ⟨before, text, since, x, after ++ [m], by simp, idle, ?_, same.2.trans named, ?_⟩
  · intro n member
    rcases List.mem_append.mp member with old | new
    · exact quiet n old
    · exact List.mem_singleton.mp new ▸ kept
  · rw [same.1]
    exact answered.append more

theorem latest_mem_submits {l : Lookup} {x : Event} {g : Nat} {text : String}
    (h : .latest g text ∈ l.submits x) : x = .request text ∧ g = l.generation + 1 := by
  cases x with
  | request t =>
    cases List.mem_singleton.mp h
    exact ⟨rfl, rfl⟩
  | ask t => cases List.mem_singleton.mp h
  | searchNow t => cases List.mem_singleton.mp h
  | _ => cases h

namespace Watched

structure Sound (source : Source) (delay : Nat) (w : Watched) : Prop where
  account : Account source delay w.lookup w.submitted w.put
  generation : w.lookup.view.generation + 1 = turn w.history
  submitted : ∀ g text, .latest g text ∈ w.submitted →
    ∃ before, Requested w.history before text ∧ g = turn before
  requested : ∀ before text, Requested w.history before text →
    .latest (turn before) text ∈ w.submitted
  expected : ∀ e, w.lookup.view.expected = some e →
    ∃ before, Stands w.history before e.text ∧ e.generation = turn before
  candidates : (w.lookup.view.candidates = [] ∧ w.lookup.view.candidatesText = "") ∨
    Explained source w.put w.history w.lookup.view

variable {source : Source} {delay : Nat} {w : Watched}

theorem requested_unique {h b c : List Moment} {s t : String} (first : Requested h b s)
    (second : Requested h c t) (same : turn b = turn c) : b = c ∧ s = t := by
  obtain ⟨since, rfl⟩ := first
  obtain ⟨since', split⟩ := second
  obtain ⟨rfl, moment, _⟩ := directive_unique rfl rfl split same
  cases moment
  exact ⟨rfl, rfl⟩

theorem Sound.stands_of_arrived (h : w.Sound source delay) {e : Expected} {text : String}
    (waiting : w.lookup.view.expected = some e) (given : .latest e.generation text ∈ w.submitted) :
    ∃ before, Stands w.history before text ∧ e.generation = turn before := by
  obtain ⟨before, stands, generation⟩ := h.expected e waiting
  obtain ⟨before', requested, generation'⟩ := h.submitted _ _ given
  obtain ⟨_, rfl⟩ := requested_unique stands.requested requested
    (generation.symm.trans generation')
  exact ⟨before, stands, generation⟩

theorem Sound.text_of_given (h : w.Sound source delay) {e : Expected} {text : String}
    (waiting : w.lookup.view.expected = some e) (given : .latest e.generation text ∈ w.submitted) :
    text = e.text := by
  obtain ⟨before, stands, generation⟩ := h.stands_of_arrived waiting given
  obtain ⟨other, expected, same⟩ := h.expected e waiting
  exact (requested_unique stands.requested expected.requested (generation.symm.trans same)).2

theorem Sound.told (h : w.Sound source delay) {m after : Lookup} {put : List Demand}
    {brought : Harvest} (view : m.view = w.lookup.view)
    (account : Account source delay m w.submitted put) (step : Harvests m brought after) :
    (brought = .nothing ∧ after.view = w.lookup.view) ∨
      after.view.generation = w.lookup.view.generation ∧
        ∃ before text, Stands w.history before text ∧
          Tells source delay put (.latest (turn before) text) (m.isLate = true) brought
            after.view := by
  have generation := congrArg View.generation view
  have expected : ∀ e, m.expected = some e → w.lookup.view.expected = some e := by
    intro e waiting
    rw [← view]
    exact waiting
  have given : ∀ r ∈ m.replies, r.demand ∈ w.submitted := by
    intro r arrived
    exact account.submitted_of_put (account.replies r arrived).mem
  cases step with
  | @found e r text found waiting arrived demand result =>
    obtain ⟨before, stands, number⟩ :=
      h.stands_of_arrived (expected e waiting) (demand ▸ given r arrived)
    have answered := account.replies r arrived
    rw [demand, result, number] at answered
    exact .inr ⟨generation, before, text, stands, rfl, rfl, answered⟩
  | @failed e r text cause waiting arrived demand result =>
    obtain ⟨before, stands, number⟩ :=
      h.stands_of_arrived (expected e waiting) (demand ▸ given r arrived)
    have answered := account.replies r arrived
    rw [demand, result, number] at answered
    exact .inr ⟨generation, before, text, stands, rfl, rfl, rfl, .inr ⟨cause, answered, rfl⟩⟩
  | @late e waiting late =>
    obtain ⟨before, stands, _⟩ := h.expected e (expected e waiting)
    exact .inr ⟨generation, before, e.text, stands, rfl, rfl, rfl,
      .inl ⟨late, congrArg _ account.waits⟩⟩
  | nothing missing early => exact .inl ⟨rfl, view⟩

def Overdue (w : Watched) (x : Event) : Prop :=
  ∃ e, w.lookup.expected = some e ∧ e.deadline ≤ (w.step x).lookup.clock

theorem Sound.harvested (h : w.Sound source delay) {x : Event} {brought : Harvest}
    (outcome : (w.lookup.perform x).1 = .harvested brought) :
    (brought = .nothing ∧ (w.step x).lookup.view = w.lookup.view) ∨
      (w.step x).lookup.view.generation = w.lookup.view.generation ∧
        ∃ before text, Stands w.history before text ∧
          Tells source delay (w.step x).put (.latest (turn before) text) (w.Overdue x) brought
            (w.step x).lookup.view := by
  obtain ⟨m, view, account, harvest⟩ := (Account.kept source delay).harvested h.account outcome
  have step := m.harvests
  rw [harvest] at step
  rcases h.told view account step with nothing | ⟨generation, before, text, stands, tells⟩
  · exact .inl nothing
  · refine .inr ⟨generation, before, text, stands, tells.imp ?_⟩
    intro late
    obtain ⟨e, waiting, passed⟩ := overdue_of_isLate late
    have clock : (w.step x).lookup.clock = m.clock := step.clock
    exact ⟨e, (congrArg View.expected view).symm.trans waiting, clock ▸ passed⟩

/-! ## Steps -/

theorem sound_new (source : Source) (delay : Nat) : (new source delay).Sound source delay where
  account := Account.new source delay
  generation := rfl
  submitted g text member := absurd member List.not_mem_nil
  requested before text := by
    rintro ⟨since, split⟩
    cases before <;> cases split
  expected e waiting := by cases waiting
  candidates := .inl ⟨rfl, rfl⟩

theorem Sound.submitted_step (h : w.Sound source delay) (x : Event) :
    (∀ g text, .latest g text ∈ (w.step x).submitted →
      ∃ before, Requested (w.step x).history before text ∧ g = turn before) ∧
    (∀ before text, Requested (w.step x).history before text →
      .latest (turn before) text ∈ (w.step x).submitted) := by
  constructor
  · intro g text member
    rcases List.mem_append.mp member with old | new
    · obtain ⟨before, requested, number⟩ := h.submitted g text old
      exact ⟨before, requested_snoc.mpr (.inl requested), number⟩
    · obtain ⟨rfl, number⟩ := latest_mem_submits new
      exact ⟨w.history, requested_snoc.mpr (.inr ⟨rfl, rfl⟩), number.trans h.generation⟩
  · intro before text requested
    rcases requested_snoc.mp requested with old | ⟨rfl, moment⟩
    · exact List.mem_append_left _ (h.requested before text old)
    · cases (Moment.mk.inj moment).1
      rw [← h.generation]
      exact List.mem_append_right _ (List.mem_singleton_self _)

theorem Sound.step_request (h : w.Sound source delay) (text : String) :
    (w.step (.request text)).Sound source delay := by
  obtain ⟨submitted, requested⟩ := h.submitted_step (.request text)
  refine ⟨kept_step (Account.kept source delay) h.account _, ?_, submitted, requested, ?_, ?_⟩
  · rw [step, turn_snoc, ← h.generation]
    rfl
  · intro e waiting
    cases waiting
    exact ⟨w.history, stands_last w.history text, h.generation⟩
  · rcases h.candidates with empty | explained
    · exact .inl empty
    · exact .inr (explained.snoc ⟨rfl, rfl⟩ ⟨Event.noConfusion, rfl⟩)

theorem Sound.step_cancel (h : w.Sound source delay) :
    (w.step .cancel).Sound source delay := by
  obtain ⟨submitted, requested⟩ := h.submitted_step .cancel
  refine ⟨kept_step (Account.kept source delay) h.account _, ?_, submitted, requested, ?_, ?_⟩
  · rw [step, turn_snoc, ← h.generation]
    rfl
  · intro e waiting
    cases waiting
  · exact .inl ⟨rfl, rfl⟩

theorem Sound.step_idle (h : w.Sound source delay) {x : Event}
    (view : (w.step x).lookup.view = w.lookup.view)
    (idle : Moment.isIdle ⟨x, (w.lookup.perform x).1⟩ = true) :
    (w.step x).Sound source delay := by
  obtain ⟨submitted, requested⟩ := h.submitted_step x
  obtain ⟨other, unsettled⟩ : Moment.isDirective ⟨x, (w.lookup.perform x).1⟩ = false ∧
      Moment.settles ⟨x, (w.lookup.perform x).1⟩ = false := by
    simpa [Moment.isIdle] using idle
  refine ⟨kept_step (Account.kept source delay) h.account _, ?_, submitted, requested, ?_, ?_⟩
  · rw [view, h.generation, step, turn_snoc, other]
    rfl
  · intro e waiting
    rw [view] at waiting
    obtain ⟨before, stands, number⟩ := h.expected e waiting
    exact ⟨before, stands.snoc idle, number⟩
  · rw [view]
    rcases h.candidates with empty | explained
    · exact .inl empty
    · refine .inr (explained.snoc ⟨rfl, rfl⟩ ⟨?_, unsettled⟩)
      rintro rfl
      cases other

theorem Sound.step_harvested (h : w.Sound source delay) {x : Event} {brought : Harvest}
    (outcome : (w.lookup.perform x).1 = .harvested brought) :
    (w.step x).Sound source delay := by
  have other : x.isDirective = false := by
    cases x with
    | request text => cases outcome
    | cancel => cases outcome
    | _ => rfl
  rcases h.harvested outcome with ⟨rfl, view⟩ | ⟨generation, before, text, stands, told⟩
  · refine h.step_idle view ?_
    rw [outcome]
    simp [Moment.isIdle, Moment.isDirective, Moment.settles, other]
  obtain ⟨submitted, requested⟩ := h.submitted_step x
  refine ⟨kept_step (Account.kept source delay) h.account _, ?_, submitted, requested, ?_, ?_⟩
  · rw [generation, h.generation, step, turn_snoc]
    simp [Moment.isDirective, other]
  · intro e waiting
    cases brought with
    | nothing => exact told.elim
    | candidates => cases told.1.symm.trans waiting
    | unavailable fault => cases told.1.symm.trans waiting
  · cases brought with
    | nothing => exact told.elim
    | candidates =>
      obtain ⟨since, split, idle⟩ := stands
      obtain ⟨_, named, answered⟩ := told
      refine .inr ⟨before, text, since, x, [], ?_, idle, ?_, named, answered⟩
      · rw [step, split, outcome]
      · exact fun _ member => absurd member List.not_mem_nil
    | unavailable fault => exact .inl ⟨told.2.1, told.2.2.1⟩

theorem Sound.step (h : w.Sound source delay) (x : Event) : (w.step x).Sound source delay := by
  cases x with
  | request text => exact h.step_request text
  | cancel => exact h.step_cancel
  | harvest => exact h.step_harvested rfl
  | await => exact h.step_harvested rfl
  | searchNow text => exact h.step_idle (w.lookup.view_searchNow text) rfl
  | ask text => exact h.step_idle (w.lookup.view_ask text) rfl
  | collect ticket => exact h.step_idle (w.lookup.view_collect ticket) rfl
  | take count => exact h.step_idle (w.lookup.view_take count) rfl
  | serveNext => exact h.step_idle w.lookup.view_serveNext rfl
  | drain => exact h.step_idle w.lookup.view_drain rfl
  | advanceTo time => exact h.step_idle (w.lookup.view_advanceTo time) rfl

theorem Sound.run (h : w.Sound source delay) (xs : List Event) :
    (w.run xs).Sound source delay := by
  induction xs generalizing w with
  | nil => exact h
  | cons x xs ih => exact ih (h.step x)

/-! ## Replies that count for nothing -/

theorem Sound.not_isExpected (h : w.Sound source delay) {before since : List Moment}
    {text : String} (split : w.history = before ++ ⟨.request text, .none⟩ :: since)
    (done : ∃ m ∈ since, m.isIdle = false) {r : Reply}
    (demand : r.demand = .latest (turn before) text) : w.lookup.isExpected r = false := by
  cases counts : w.lookup.isExpected r with
  | false => rfl
  | true =>
    obtain ⟨e, text', waiting, demand'⟩ := isExpected_iff.mp counts
    obtain ⟨number, _⟩ := Demand.latest.inj (demand.symm.trans demand')
    obtain ⟨before', ⟨since', split', idle⟩, number'⟩ := h.expected e waiting
    obtain ⟨_, _, rfl⟩ := directive_unique rfl rfl (split.symm.trans split')
      (number.trans number')
    obtain ⟨m, member, busy⟩ := done
    rw [idle m member] at busy
    cases busy

end Watched

theorem isExpected_accept {l : Lookup} {r s : Reply} (h : l.isExpected r = false) :
    (l.accept s).2.isExpected r = false := by
  cases counts : l.isExpected s with
  | false =>
    rw [accept_of_not_isExpected counts]
    exact h
  | true => exact isExpected_of_none (accept_of_isExpected counts).2 r

theorem acceptAll_skip {r : Reply} (earlier later : List Reply) {brought : Harvest} {l : Lookup}
    (h : l.isExpected r = false) :
    acceptAll (earlier ++ r :: later) brought l = acceptAll (earlier ++ later) brought l := by
  induction earlier generalizing brought l with
  | nil => rw [List.nil_append, acceptAll, accept_of_not_isExpected h]; rfl
  | cons s rest ih =>
    have still := isExpected_accept (s := s) h
    rw [List.cons_append, List.cons_append, acceptAll, acceptAll]
    generalize l.accept s = outcome at still
    obtain ⟨told, after⟩ := outcome
    cases told <;> exact ih still

theorem harvest_skip {l : Lookup} {r : Reply} {earlier later : List Reply}
    (arrived : l.replies = earlier ++ r :: later) (h : l.isExpected r = false) :
    { l with replies := earlier ++ later }.harvest = l.harvest := by
  have same : acceptAll l.replies .nothing { l with replies := [] } =
      acceptAll (earlier ++ later) .nothing { l with replies := [] } := by
    rw [arrived]
    exact acceptAll_skip earlier later h
  rw [harvest, harvest, same]

/-- Only the last demand is ever settled, once at most and not after a cancellation; the
candidates are those it was settled with; and no reply to another demand changes anything. -/
theorem latest_request_wins (source : Source) (delay : Nat) (xs : List Event) :
    let w := (Watched.new source delay).run xs
    (w.lookup = ((Lookup.new source delay).run xs).2 ∧
      w.history = xs.zipWith Moment.mk ((Lookup.new source delay).run xs).1) ∧
    (∀ before text, Requested w.history before text → .latest (turn before) text ∈ w.submitted) ∧
    (∀ x brought, (w.lookup.perform x).1 = .harvested brought → brought ≠ .nothing →
      ∃ before text, Stands w.history before text ∧
        Tells source delay (w.step x).put (.latest (turn before) text) (w.Overdue x) brought
          (w.step x).lookup.view) ∧
    ((w.lookup.candidates = [] ∧ w.lookup.candidatesText = "") ∨
      Explained source w.put w.history w.lookup.view) ∧
    (∀ before text since, w.history = before ++ ⟨.request text, .none⟩ :: since →
      (∃ m ∈ since, m.isIdle = false) →
      ∀ r : Reply, r.demand = .latest (turn before) text →
        w.lookup.accept r = (.nothing, w.lookup) ∧
        ∀ earlier later, w.lookup.replies = earlier ++ r :: later →
          { w.lookup with replies := earlier ++ later }.harvest = w.lookup.harvest) := by
  intro w
  have sound : w.Sound source delay := (Watched.sound_new source delay).run xs
  refine ⟨⟨Watched.lookup_run _ xs, Watched.history_run _ xs⟩, sound.requested, ?_,
    sound.candidates, ?_⟩
  · intro x brought outcome told
    rcases sound.harvested outcome with ⟨nothing, _⟩ | ⟨_, before, text, stands, tells⟩
    · exact (told nothing).elim
    · exact ⟨before, text, stands, tells⟩
  · intro before text since split done r demand
    have unexpected := sound.not_isExpected split done demand
    refine ⟨accept_of_not_isExpected unexpected, ?_⟩
    intro earlier later arrived
    exact harvest_skip arrived unexpected

end TagFormula.Lookup
