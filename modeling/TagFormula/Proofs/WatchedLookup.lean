import TagFormula.Proofs.LookupSteps

/-!
A lookup under watch: beside it go the demands its worker was given, those put to the source,
and all that happened, in order. The worker's account always balances: what was put or is in
hand is what the batches so far come down to, and every reply is the source's own to a demand
that was put.
-/
namespace TagFormula.Lookup

def Answered (source : Source) (put : List Demand) (d : Demand)
    (result : Except Fault (List Suggestion)) : Prop :=
  ∃ n, put[n]? = some d ∧ source n d.text = .reply result

theorem Answered.append {source : Source} {put : List Demand} {d : Demand}
    {result : Except Fault (List Suggestion)} (h : Answered source put d result)
    (more : List Demand) : Answered source (put ++ more) d result := by
  obtain ⟨n, asked, answer⟩ := h
  have inside := (List.getElem?_eq_some_iff.mp asked).1
  exact ⟨n, (List.getElem?_append_left inside).trans asked, answer⟩

theorem Answered.mem {source : Source} {put : List Demand} {d : Demand}
    {result : Except Fault (List Suggestion)} (h : Answered source put d result) : d ∈ put := by
  obtain ⟨n, asked, _⟩ := h
  exact List.mem_of_getElem? asked

/-- The worker's account of the demands it was given and of those it has put. -/
structure Account (source : Source) (delay : Nat) (l : Lookup) (submitted put : List Demand) :
    Prop where
  asks : l.source = source
  waits : l.delay = delay
  served : l.served = put.length
  replies : ∀ r ∈ l.replies, Answered source put r.demand r.result
  batches : ∃ batches : List (List Demand), batches.flatten ++ l.queue = submitted ∧
    batches.flatMap Demand.withoutSuperseded = put ++ l.inHand

namespace Account

variable {source : Source} {delay : Nat} {l : Lookup} {s p : List Demand}

theorem new (source : Source) (delay : Nat) : Account source delay (.new source delay) [] [] :=
  ⟨rfl, rfl, rfl, fun _ member => absurd member List.not_mem_nil, [], rfl, rfl⟩

theorem serveNext (h : Account source delay l s p) :
    Account source delay l.serveNext s (p ++ l.next?.toList) := by
  have step := l.serves
  obtain ⟨asks, waits, served, replies, batches⟩ := h
  generalize l.next? = first at step ⊢
  generalize l.serveNext = after at step ⊢
  cases step with
  | idle =>
    rw [Option.toList_none, List.append_nil]
    exact ⟨asks, waits, served, replies, batches⟩
  | @replied d rest result inHand answer =>
    have put : (p ++ [d])[p.length]? = some d := by simp
    refine ⟨asks, waits, by simp [served], ?_, ?_⟩
    · intro r member
      rcases List.mem_append.mp member with old | new
      · exact (replies r old).append [d]
      · cases List.mem_singleton.mp new
        exact ⟨p.length, put, served ▸ asks ▸ answer⟩
    · rw [inHand] at batches
      simpa using batches
  | @stalled d rest inHand answer =>
    refine ⟨asks, waits, by simp [served], ?_, ?_⟩
    · intro r member
      exact (replies r member).append [d]
    · rw [inHand] at batches
      simpa using batches

theorem take (h : Account source delay l s p) (count : Nat) :
    Account source delay (l.take count) s p := by
  have step := l.takes count
  obtain ⟨asks, waits, served, replies, batches, submitted, put⟩ := h
  generalize l.take count = after at step ⊢
  cases step with
  | busy => exact ⟨asks, waits, served, replies, batches, submitted, put⟩
  | batch free =>
    refine ⟨asks, waits, served, replies, batches ++ [l.queue.take count], ?_, ?_⟩
    · simpa using submitted
    · rw [free, List.append_nil] at put
      simp [put]

theorem hand (h : Account source delay l s p) (d : Demand) (generation asked : Nat)
    (expected : Option Expected) :
    Account source delay
      { l with
        generation := generation
        expected := expected
        asked := asked
        queue := l.queue ++ [d] }
      (s ++ [d]) p := by
  obtain ⟨asks, waits, served, replies, batches, submitted, put⟩ := h
  refine ⟨asks, waits, served, replies, batches, ?_, put⟩
  rw [← submitted, List.append_assoc]

theorem withdraw {m : Lookup} (h : Account source delay l s p)
    (same : (m.source, m.delay, m.served, m.queue, m.inHand) =
      (l.source, l.delay, l.served, l.queue, l.inHand))
    (fewer : m.replies ⊆ l.replies) : Account source delay m s p := by
  obtain ⟨asks, waits, served, replies, batches, submitted, put⟩ := h
  simp only [Prod.mk.injEq] at same
  obtain ⟨source_eq, delay_eq, served_eq, queue_eq, inHand_eq⟩ := same
  refine ⟨source_eq.trans asks, delay_eq.trans waits, served_eq.trans served, ?_, batches, ?_, ?_⟩
  · intro r member
    exact replies r (fewer member)
  · rw [queue_eq, submitted]
  · rw [inHand_eq, put]

theorem harvest (h : Account source delay l s p) : Account source delay l.harvest.2 s p := by
  have step := l.harvests
  generalize l.harvest = outcome at step ⊢
  obtain ⟨brought, after⟩ := outcome
  cases step <;> exact h.withdraw rfl (List.nil_subset _)

theorem collect (h : Account source delay l s p) (ticket : Nat) :
    Account source delay (l.collect ticket).2 s p := by
  unfold Lookup.collect
  split
  · exact h.withdraw rfl List.filter_sublist.subset
  · exact h.withdraw rfl (List.Subset.refl _)

theorem kept (source : Source) (delay : Nat) : Kept (Account source delay) where
  serveNext h := h.serveNext
  take h := h.take
  advanceTo h _ := h.withdraw rfl (List.Subset.refl _)
  request {l _ _} h text :=
    h.hand (.latest (l.generation + 1) text) (l.generation + 1) l.asked
      (some ⟨l.generation + 1, text, l.clock + l.delay⟩)
  cancel h := h.withdraw rfl (List.Subset.refl _)
  harvest h := h.harvest
  ask {l _ _} h text := h.hand (.direct l.asked text) l.generation (l.asked + 1) l.expected
  collect h := h.collect

theorem flatMap_sublist (batches : List (List Demand)) :
    (batches.flatMap Demand.withoutSuperseded).Sublist batches.flatten := by
  induction batches with
  | nil => exact List.Sublist.refl _
  | cons batch rest ih =>
    rw [List.flatMap_cons, List.flatten_cons]
    exact (Demand.withoutSuperseded_sublist batch).append ih

theorem sublist (h : Account source delay l s p) : (p ++ l.inHand ++ l.queue).Sublist s := by
  obtain ⟨batches, submitted, put⟩ := h.batches
  rw [← submitted, ← put]
  exact (flatMap_sublist batches).append (List.Sublist.refl _)

theorem submitted_of_put (h : Account source delay l s p) {d : Demand} (put : d ∈ p) : d ∈ s :=
  h.sublist.subset (List.mem_append_left _ (List.mem_append_left _ put))

end Account

/-! ## What happened -/

def Event.isDirective : Event → Bool
  | .request _ | .cancel => true
  | _ => false

structure Moment where
  event : Event
  outcome : Outcome

namespace Moment

def isDirective (m : Moment) : Bool := m.event.isDirective

def settles (m : Moment) : Bool :=
  match m.outcome with
  | .harvested .nothing => false
  | .harvested _ => true
  | _ => false

def isIdle (m : Moment) : Bool := !m.isDirective && !m.settles

end Moment

/-- Directives are numbered; this is the number of one that comes after these moments. -/
def turn (before : List Moment) : Nat := before.countP Moment.isDirective + 1

theorem turn_snoc (before : List Moment) (m : Moment) :
    turn (before ++ [m]) = turn before + if m.isDirective then 1 else 0 := by
  simp only [turn, List.countP_append, List.countP_singleton]
  omega

theorem directive_unique {b c s t : List Moment} {m n : Moment} (m_is : m.isDirective = true)
    (n_is : n.isDirective = true) (split : b ++ m :: s = c ++ n :: t) (same : turn b = turn c) :
    b = c ∧ m = n ∧ s = t := by
  induction b generalizing c with
  | nil =>
    cases c with
    | nil =>
      obtain ⟨first, rest⟩ := List.cons.inj split
      exact ⟨rfl, first, rest⟩
    | cons d c =>
      obtain ⟨rfl, _⟩ := List.cons.inj split
      simp only [turn, List.countP_nil, List.countP_cons_of_pos m_is] at same
      omega
  | cons a b ih =>
    cases c with
    | nil =>
      obtain ⟨rfl, _⟩ := List.cons.inj split
      simp only [turn, List.countP_nil, List.countP_cons_of_pos n_is] at same
      omega
    | cons d c =>
      obtain ⟨rfl, rest⟩ := List.cons.inj split
      have same : turn b = turn c := by
        simp only [turn, List.countP_cons] at same ⊢
        omega
      obtain ⟨rfl, first, last⟩ := ih rest same
      exact ⟨rfl, first, last⟩

/-- A lookup, the demands its worker was given, those put to the source, and all that
happened. -/
structure Watched where
  lookup : Lookup
  submitted : List Demand
  put : List Demand
  history : List Moment

namespace Watched

def new (source : Source) (delay : Nat) : Watched := ⟨.new source delay, [], [], []⟩

def step (w : Watched) (x : Event) : Watched where
  lookup := (w.lookup.perform x).2
  submitted := w.submitted ++ w.lookup.submits x
  put := w.put ++ w.lookup.puts x
  history := w.history ++ [⟨x, (w.lookup.perform x).1⟩]

def run (w : Watched) : List Event → Watched
  | [] => w
  | x :: rest => (w.step x).run rest

theorem run_append (w : Watched) (xs ys : List Event) : w.run (xs ++ ys) = (w.run xs).run ys := by
  induction xs generalizing w with
  | nil => rfl
  | cons x xs ih => exact ih (w.step x)

theorem lookup_run (w : Watched) (xs : List Event) :
    (w.run xs).lookup = (w.lookup.run xs).2 := by
  induction xs generalizing w with
  | nil => rfl
  | cons x xs ih => exact ih (w.step x)

theorem history_run (w : Watched) (xs : List Event) :
    (w.run xs).history = w.history ++ xs.zipWith Moment.mk (w.lookup.run xs).1 := by
  induction xs generalizing w with
  | nil => exact (List.append_nil _).symm
  | cons x xs ih =>
    rw [run, ih, step, List.append_assoc]
    rfl

def events (w : Watched) : List Event := w.history.map Moment.event

theorem events_step (w : Watched) (x : Event) : (w.step x).events = w.events ++ [x] := by
  simp [events, step]

theorem events_run (w : Watched) (xs : List Event) : (w.run xs).events = w.events ++ xs := by
  induction xs generalizing w with
  | nil => exact (List.append_nil _).symm
  | cons x xs ih =>
    rw [run, ih, events_step, List.append_assoc]
    rfl

theorem kept_step {P : Lookup → List Demand → List Demand → Prop} (k : Kept P) {w : Watched}
    (h : P w.lookup w.submitted w.put) (x : Event) :
    P (w.step x).lookup (w.step x).submitted (w.step x).put := k.perform h x

theorem kept_run {P : Lookup → List Demand → List Demand → Prop} (k : Kept P) {w : Watched}
    (h : P w.lookup w.submitted w.put) (xs : List Event) :
    P (w.run xs).lookup (w.run xs).submitted (w.run xs).put := by
  induction xs generalizing w with
  | nil => exact h
  | cons x xs ih => exact ih (kept_step k h x)

end Watched

end TagFormula.Lookup
