import TagFormula.Lookup.Run
import TagFormula.Lookup.View

/-!
What the parts of a lookup do: the worker's steps, a harvest, and the longer events that are
made of them. What every part keeps, every event keeps.
-/
namespace TagFormula.Lookup

/-! ## The worker -/

def next? (l : Lookup) : Option Demand := if l.stalled then none else l.inHand.head?

inductive Serves (l : Lookup) : Option Demand → Lookup → Prop where
  | idle : Serves l none l
  | replied {d : Demand} {rest : List Demand} {result : Except Fault (List Suggestion)}
      (inHand : l.inHand = d :: rest) (answer : l.source l.served d.text = .reply result) :
      Serves l (some d)
        { l with inHand := rest, served := l.served + 1, replies := l.replies ++ [⟨d, result⟩] }
  | stalled {d : Demand} {rest : List Demand} (inHand : l.inHand = d :: rest)
      (answer : l.source l.served d.text = .silence) :
      Serves l (some d) { l with inHand := rest, served := l.served + 1, stalled := true }

theorem serves (l : Lookup) : Serves l l.next? l.serveNext := by
  unfold serveNext
  split
  · next d rest free inHand =>
    have first : l.next? = some d := by simp [next?, free, inHand]
    rw [first]
    split
    · next result answer => exact .replied inHand answer
    · next answer => exact .stalled inHand answer
  · next none_free =>
    have first : l.next? = none := by
      unfold next?
      split
      · rfl
      · next free =>
        cases inHand : l.inHand with
        | nil => rfl
        | cons d rest => exact (none_free d rest (Bool.eq_false_iff.mpr free) inHand).elim
    rw [first]
    exact .idle

inductive Takes (l : Lookup) (count : Nat) : Lookup → Prop where
  | busy : Takes l count l
  | batch (free : l.inHand = []) :
      Takes l count
        { l with
          inHand := Demand.withoutSuperseded (l.queue.take count)
          queue := l.queue.drop count }

theorem takes (l : Lookup) (count : Nat) : Takes l count (l.take count) := by
  unfold take
  split
  · exact .busy
  · next free =>
    simp only [Bool.or_eq_true, Bool.not_eq_true', not_or, Bool.not_eq_false,
      List.isEmpty_iff] at free
    exact .batch free.2

def putBySteps (l : Lookup) : Nat → List Demand
  | 0 => []
  | n + 1 => l.putBySteps n ++ (n.repeat serveNext l).next?.toList

def putByBatch (l : Lookup) : List Demand := l.putBySteps l.inHand.length

def putByDrain (l : Lookup) : List Demand :=
  l.putByBatch ++ (l.finishBatch.take l.finishBatch.queue.length).putByBatch

/-! ## Harvests -/

/-- A deadline is over, and the reply has not arrived. -/
def isLate (l : Lookup) : Bool :=
  l.replies.all (!l.isExpected ·) && l.expected.any (decide <| ·.deadline ≤ l.clock)

theorem isExpected_iff {l : Lookup} {r : Reply} :
    l.isExpected r = true ↔
      ∃ e text, l.expected = some e ∧ r.demand = .latest e.generation text := by
  unfold isExpected
  constructor
  · intro counts
    split at counts
    · next generation text e demand waiting =>
      have same : e.generation = generation := by simpa using counts
      exact ⟨e, text, waiting, same ▸ demand⟩
    · cases counts
  · rintro ⟨e, text, waiting, demand⟩
    simp only [demand, waiting, beq_self_eq_true]

inductive Harvests (l : Lookup) : Harvest → Lookup → Prop where
  | found {e : Expected} {r : Reply} {text : String} {found : List Suggestion}
      (waiting : l.expected = some e) (arrived : r ∈ l.replies)
      (demand : r.demand = .latest e.generation text) (result : r.result = .ok found) :
      Harvests l .candidates
        { l with replies := [], expected := none, candidates := found, candidatesText := text }
  | failed {e : Expected} {r : Reply} {text : String} {cause : Fault}
      (waiting : l.expected = some e) (arrived : r ∈ l.replies)
      (demand : r.demand = .latest e.generation text) (result : r.result = .error cause) :
      Harvests l (.unavailable cause.asLookup)
        { l with replies := [], expected := none, candidates := [], candidatesText := "" }
  | late {e : Expected} (waiting : l.expected = some e) (late : l.isLate = true) :
      Harvests l (.unavailable (.noAnswer l.delay))
        { l with replies := [], expected := none, candidates := [], candidatesText := "" }
  | nothing (missing : ∀ r ∈ l.replies, l.isExpected r = false) (early : l.isLate = false) :
      Harvests l .nothing { l with replies := [] }

theorem overdue_of_isLate {l : Lookup} (h : l.isLate = true) :
    ∃ e, l.expected = some e ∧ e.deadline ≤ l.clock := by
  have passed := (Bool.and_eq_true_iff.mp h).2
  cases waiting : l.expected with
  | none =>
    rw [waiting] at passed
    cases passed
  | some e =>
    rw [waiting] at passed
    exact ⟨e, rfl, of_decide_eq_true passed⟩

theorem Harvests.clock {l after : Lookup} {brought : Harvest} (h : Harvests l brought after) :
    after.clock = l.clock := by
  cases h <;> rfl

theorem acceptAll_of_none_expected {rs : List Reply} {h : Harvest} {l : Lookup}
    (missing : ∀ r ∈ rs, l.isExpected r = false) : acceptAll rs h l = (h, l) := by
  induction rs with
  | nil => rfl
  | cons r rest ih =>
    rw [acceptAll, accept_of_not_isExpected (missing r List.mem_cons_self)]
    exact ih fun s member => missing s (List.mem_cons_of_mem r member)

theorem isExpected_of_none {l : Lookup} (none : l.expected = none) (r : Reply) :
    l.isExpected r = false := by
  unfold isExpected
  split
  · next waiting => cases none.symm.trans waiting
  · rfl

theorem accept_of_isExpected {l : Lookup} {r : Reply} (h : l.isExpected r = true) :
    (l.accept r).1 ≠ .nothing ∧ (l.accept r).2.expected = none := by
  unfold accept
  rw [if_pos h]
  cases r.result with
  | ok found => exact ⟨Harvest.noConfusion, rfl⟩
  | error cause => exact ⟨Harvest.noConfusion, rfl⟩

theorem acceptAll_cases (rs : List Reply) (l : Lookup) :
    ((∀ r ∈ rs, l.isExpected r = false) ∧ acceptAll rs .nothing l = (.nothing, l)) ∨
      ∃ r ∈ rs, l.isExpected r = true ∧ acceptAll rs .nothing l = l.accept r := by
  induction rs with
  | nil => exact .inl ⟨fun r member => absurd member List.not_mem_nil, rfl⟩
  | cons r rest ih =>
    cases counts : l.isExpected r with
    | true =>
      obtain ⟨told, settled⟩ := accept_of_isExpected counts
      refine .inr ⟨r, List.mem_cons_self, counts, ?_⟩
      rw [acceptAll]
      generalize l.accept r = outcome at told settled
      obtain ⟨brought, after⟩ := outcome
      have ignored := @acceptAll_of_none_expected rest brought after
        fun s _ => isExpected_of_none settled s
      cases brought with
      | nothing => exact (told rfl).elim
      | candidates => exact ignored
      | unavailable fault => exact ignored
    | false =>
      have skipped : acceptAll (r :: rest) .nothing l = acceptAll rest .nothing l := by
        rw [acceptAll, accept_of_not_isExpected counts]
      rw [skipped]
      rcases ih with ⟨missing, nothing⟩ | ⟨s, member, counted, same⟩
      · exact .inl ⟨List.forall_mem_cons.mpr ⟨counts, missing⟩, nothing⟩
      · exact .inr ⟨s, List.mem_cons_of_mem r member, counted, same⟩

theorem harvests (l : Lookup) : Harvests l l.harvest.1 l.harvest.2 := by
  rcases acceptAll_cases l.replies { l with replies := [] } with
    ⟨missing, taken⟩ | ⟨r, arrived, counts, taken⟩
  · have outcome : l.harvest = { l with replies := [] }.expire := by
      simp only [harvest, taken]
    have missing : ∀ r ∈ l.replies, l.isExpected r = false := missing
    have all : l.replies.all (!l.isExpected ·) = true := by simpa using missing
    rw [outcome]
    unfold expire
    split
    · next e waiting =>
      have waiting : l.expected = some e := waiting
      split
      · next passed => exact .late waiting (by simpa [isLate, all, waiting] using passed)
      · next early => exact .nothing missing (by simpa [isLate, all, waiting] using early)
    · next waiting =>
      have waiting : l.expected = none := waiting
      exact .nothing missing (by simp [isLate, waiting])
  · obtain ⟨e, text, waiting, demand⟩ := isExpected_iff.mp counts
    have outcome : l.harvest = { l with replies := [] }.accept r := by
      have told := (accept_of_isExpected counts).1
      unfold harvest
      rw [taken]
      generalize { l with replies := [] }.accept r = result at told
      obtain ⟨brought, after⟩ := result
      cases brought with
      | nothing => exact (told rfl).elim
      | candidates => rfl
      | unavailable fault => rfl
    rw [outcome, accept, if_pos counts]
    split
    · next found result =>
      have told := @Harvests.found l e r text found waiting arrived demand result
      simpa only [demand, Demand.text] using told
    · next cause result => exact .failed (l := l) waiting arrived demand result

/-! ## Events -/

def submits (l : Lookup) : Event → List Demand
  | .request text => [.latest (l.generation + 1) text]
  | .ask text | .searchNow text => [.direct l.asked text]
  | _ => []

def puts (l : Lookup) : Event → List Demand
  | .serveNext => l.next?.toList
  | .drain | .await => l.putByDrain
  | .searchNow text => (l.ask text).2.putByDrain
  | _ => []

def Event.isUnseen : Event → Bool
  | .request _ | .cancel | .harvest | .await => false
  | _ => true

theorem view_perform_of_isUnseen (l : Lookup) {x : Event} (unseen : x.isUnseen = true) :
    (l.perform x).2.view = l.view := by
  cases x with
  | request text => cases unseen
  | cancel => cases unseen
  | harvest => cases unseen
  | await => cases unseen
  | searchNow text => exact l.view_searchNow text
  | ask text => exact l.view_ask text
  | collect ticket => exact l.view_collect ticket
  | take count => exact l.view_take count
  | serveNext => exact l.view_serveNext
  | drain => exact l.view_drain
  | advanceTo time => exact l.view_advanceTo time

theorem view_run_of_isUnseen (l : Lookup) {xs : List Event}
    (unseen : ∀ x ∈ xs, x.isUnseen = true) : (l.run xs).2.view = l.view := by
  induction xs generalizing l with
  | nil => rfl
  | cons x xs ih =>
    obtain ⟨first, rest⟩ := List.forall_mem_cons.mp unseen
    exact (ih (l.perform x).2 rest).trans (l.view_perform_of_isUnseen first)

/-- Kept by each part of an event, whatever the demands handed over and put so far. -/
structure Kept (P : Lookup → List Demand → List Demand → Prop) : Prop where
  serveNext : ∀ {l s p}, P l s p → P l.serveNext s (p ++ l.next?.toList)
  take : ∀ {l s p}, P l s p → ∀ count, P (l.take count) s p
  advanceTo : ∀ {l s p}, P l s p → ∀ time, P (l.advanceTo time) s p
  request : ∀ {l s p}, P l s p → ∀ text,
    P (l.request text) (s ++ [.latest (l.generation + 1) text]) p
  cancel : ∀ {l s p}, P l s p → P l.cancel s p
  harvest : ∀ {l s p}, P l s p → P l.harvest.2 s p
  ask : ∀ {l s p}, P l s p → ∀ text, P (l.ask text).2 (s ++ [.direct l.asked text]) p
  collect : ∀ {l s p}, P l s p → ∀ ticket, P (l.collect ticket).2 s p

namespace Kept

variable {P Q : Lookup → List Demand → List Demand → Prop} {l : Lookup} {s p : List Demand}

theorem both (k : Kept P) (j : Kept Q) : Kept fun l s p => P l s p ∧ Q l s p where
  serveNext h := ⟨k.serveNext h.1, j.serveNext h.2⟩
  take h count := ⟨k.take h.1 count, j.take h.2 count⟩
  advanceTo h time := ⟨k.advanceTo h.1 time, j.advanceTo h.2 time⟩
  request h text := ⟨k.request h.1 text, j.request h.2 text⟩
  cancel h := ⟨k.cancel h.1, j.cancel h.2⟩
  harvest h := ⟨k.harvest h.1, j.harvest h.2⟩
  ask h text := ⟨k.ask h.1 text, j.ask h.2 text⟩
  collect h ticket := ⟨k.collect h.1 ticket, j.collect h.2 ticket⟩

theorem steps (k : Kept P) (h : P l s p) (n : Nat) :
    P (n.repeat Lookup.serveNext l) s (p ++ l.putBySteps n) := by
  induction n with
  | zero => simpa [Nat.repeat, putBySteps] using h
  | succ n ih => simpa [Nat.repeat, putBySteps] using k.serveNext ih

theorem drain (k : Kept P) (h : P l s p) : P l.drain s (p ++ l.putByDrain) := by
  have first : P l.finishBatch s (p ++ l.putByBatch) := k.steps h _
  have second := k.steps (k.take first l.finishBatch.queue.length)
    (l.finishBatch.take l.finishBatch.queue.length).inHand.length
  rw [List.append_assoc] at second
  exact second

theorem await (k : Kept P) (h : P l s p) :
    ∃ m : Lookup, m.view = l.view ∧ m.inHand ++ m.queue = l.drain.inHand ++ l.drain.queue ∧
      P m s (p ++ l.putByDrain) ∧ l.await = m.harvest := by
  have drained := k.drain h
  have harvested := k.harvest drained
  have same := l.drain.harvests
  unfold Lookup.await
  generalize outcome : l.drain.harvest = first at same harvested
  obtain ⟨brought, after⟩ := first
  cases same with
  | found => exact ⟨l.drain, l.view_drain, rfl, drained, outcome.symm⟩
  | failed => exact ⟨l.drain, l.view_drain, rfl, drained, outcome.symm⟩
  | late => exact ⟨l.drain, l.view_drain, rfl, drained, outcome.symm⟩
  | nothing =>
    simp only
    split
    · next e waiting =>
      refine ⟨_, ?_, ?_, k.advanceTo harvested e.deadline, rfl⟩
      · exact l.view_drain
      · rfl
    · exact ⟨l.drain, l.view_drain, rfl, drained, outcome.symm⟩

theorem perform (k : Kept P) (h : P l s p) (x : Event) :
    P (l.perform x).2 (s ++ l.submits x) (p ++ l.puts x) := by
  cases x with
  | request text => simpa [Lookup.perform, submits, puts] using k.request h text
  | cancel => simpa [Lookup.perform, submits, puts] using k.cancel h
  | harvest => simpa [Lookup.perform, submits, puts] using k.harvest h
  | await =>
    obtain ⟨m, _, _, kept, same⟩ := k.await h
    have harvested := k.harvest kept
    rw [← same] at harvested
    simpa [Lookup.perform, submits, puts] using harvested
  | searchNow text => exact k.collect (k.drain (k.ask h text)) _
  | ask text => simpa [Lookup.perform, submits, puts] using k.ask h text
  | collect ticket => simpa [Lookup.perform, submits, puts] using k.collect h ticket
  | take count => simpa [Lookup.perform, submits, puts] using k.take h count
  | serveNext => simpa [Lookup.perform, submits, puts] using k.serveNext h
  | drain => simpa [Lookup.perform, submits, puts] using k.drain h
  | advanceTo time => simpa [Lookup.perform, submits, puts] using k.advanceTo h time

/-- An event that harvests does so once for its client, whose view is as it was till then. -/
theorem harvested (k : Kept P) (h : P l s p) {x : Event} {brought : Harvest}
    (outcome : (l.perform x).1 = .harvested brought) :
    ∃ m : Lookup, m.view = l.view ∧ P m s (p ++ l.puts x) ∧
      m.harvest = (brought, (l.perform x).2) := by
  cases x with
  | harvest =>
    have same := Outcome.harvested.inj outcome
    exact ⟨l, rfl, by simpa [puts] using h, Prod.ext same rfl⟩
  | await =>
    obtain ⟨m, view, _, kept, same⟩ := k.await h
    have told := Outcome.harvested.inj outcome
    exact ⟨m, view, kept, same.symm.trans (Prod.ext told rfl)⟩
  | _ => cases outcome

end Kept

end TagFormula.Lookup
