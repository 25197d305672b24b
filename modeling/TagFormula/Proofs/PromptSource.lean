import TagFormula.Proofs.LatestRequest

/-!
A source that always replies, and by the text alone. The worker then never stalls: what it does
in a row of steps has a closed form, and the reply to what is expected has arrived, or is still
to come because its demand is the last perishable one that waits.
-/
namespace TagFormula

namespace Demand

theorem getLast?_after_batch (batch rest : List Demand) :
    ((withoutSuperseded batch ++ rest).filter isPerishable).getLast? =
      ((batch ++ rest).filter isPerishable).getLast? := by
  rw [List.filter_append, List.filter_append, filter_isPerishable_withoutSuperseded,
    List.getLast?_append, List.getLast?_append]
  cases (batch.filter isPerishable).getLast? with
  | none => rfl
  | some d => rfl

end Demand

namespace Lookup

def byText (f : String → Except Fault (List Suggestion)) : Source := fun _ text => .reply (f text)

def replyTo (f : String → Except Fault (List Suggestion)) (d : Demand) : Reply := ⟨d, f d.text⟩

variable {f : String → Except Fault (List Suggestion)} {l : Lookup}

theorem Answered.byText {put : List Demand} {d : Demand}
    {result : Except Fault (List Suggestion)} (h : Answered (byText f) put d result) :
    result = f d.text := by
  obtain ⟨n, _, answer⟩ := h
  exact (Answer.reply.inj answer).symm

structure Prompt (f : String → Except Fault (List Suggestion)) (l : Lookup) : Prop where
  asks : l.source = byText f
  free : l.stalled = false

namespace Prompt

theorem next? (h : Prompt f l) : l.next? = l.inHand.head? := by simp [Lookup.next?, h.free]

theorem serveNext_idle (h : Prompt f l) (inHand : l.inHand = []) : l.serveNext = l := by
  simp [Lookup.serveNext, h.free, inHand]

theorem serveNext (h : Prompt f l) {d : Demand} {rest : List Demand}
    (inHand : l.inHand = d :: rest) :
    l.serveNext =
      { l with inHand := rest, served := l.served + 1, replies := l.replies ++ [replyTo f d] } := by
  have answer : l.source l.served d.text = .reply (f d.text) := by rw [h.asks, byText]
  simp only [Lookup.serveNext, h.free, inHand, answer, replyTo]

theorem steps (h : Prompt f l) {n : Nat} (enough : n ≤ l.inHand.length) :
    n.repeat Lookup.serveNext l =
      { l with
        inHand := l.inHand.drop n
        served := l.served + n
        replies := l.replies ++ (l.inHand.take n).map (replyTo f) } ∧
      l.putBySteps n = l.inHand.take n := by
  induction n with
  | zero => simp [Nat.repeat, putBySteps]
  | succ n ih =>
    obtain ⟨before, put⟩ := ih (Nat.le_of_succ_le enough)
    have split : l.inHand.drop n = l.inHand[n] :: l.inHand.drop (n + 1) :=
      List.drop_eq_getElem_cons enough
    have taken : l.inHand.take (n + 1) = l.inHand.take n ++ [l.inHand[n]] :=
      List.take_succ_eq_append_getElem enough
    have prompt : Prompt f (n.repeat Lookup.serveNext l) := by
      rw [before]
      exact ⟨h.asks, h.free⟩
    have inHand : (n.repeat Lookup.serveNext l).inHand = l.inHand[n] :: l.inHand.drop (n + 1) := by
      rw [before, ← split]
    constructor
    · rw [Nat.repeat, prompt.serveNext inHand, before, taken, List.map_append, List.append_assoc]
      rfl
    · rw [putBySteps, put, prompt.next?, inHand, taken]
      rfl

theorem finishBatch (h : Prompt f l) :
    l.finishBatch =
      { l with
        inHand := []
        served := l.served + l.inHand.length
        replies := l.replies ++ l.inHand.map (replyTo f) } ∧
      l.putByBatch = l.inHand := by
  have all := h.steps (Nat.le_refl l.inHand.length)
  rw [List.drop_length, List.take_length] at all
  exact all

theorem drain (h : Prompt f l) :
    l.putByDrain = l.inHand ++ Demand.withoutSuperseded l.queue ∧
      l.drain =
        { l with
          inHand := []
          queue := []
          served := l.served + l.putByDrain.length
          replies := l.replies ++ l.putByDrain.map (replyTo f) } := by
  obtain ⟨first, put⟩ := h.finishBatch
  have second : l.finishBatch.take l.finishBatch.queue.length =
      { l.finishBatch with inHand := Demand.withoutSuperseded l.queue, queue := [] } := by
    simp [first, take, h.free]
  have prompt : Prompt f
      { l.finishBatch with inHand := Demand.withoutSuperseded l.queue, queue := [] } := by
    rw [first]
    exact ⟨h.asks, h.free⟩
  obtain ⟨last, rest⟩ := prompt.finishBatch
  have all : l.putByDrain = l.inHand ++ Demand.withoutSuperseded l.queue := by
    rw [putByDrain, put, second, rest]
  refine ⟨all, ?_⟩
  rw [all]
  unfold Lookup.drain
  simp only [second, last]
  simp [first, Nat.add_assoc]

theorem kept (f : String → Except Fault (List Suggestion)) : Kept fun l _ _ => Prompt f l where
  serveNext {l _ _} h := by
    cases inHand : l.inHand with
    | nil =>
      rw [h.serveNext_idle inHand]
      exact h
    | cons d rest =>
      rw [h.serveNext inHand]
      exact ⟨h.asks, h.free⟩
  take {l _ _} h count := by
    have step := l.takes count
    generalize l.take count = after at step
    cases step with
    | busy => exact h
    | batch free => exact ⟨h.asks, h.free⟩
  advanceTo h _ := ⟨h.asks, h.free⟩
  request h _ := ⟨h.asks, h.free⟩
  cancel h := ⟨h.asks, h.free⟩
  harvest {l _ _} h := by
    have step := l.harvests
    generalize l.harvest = outcome at step
    obtain ⟨brought, after⟩ := outcome
    cases step <;> exact ⟨h.asks, h.free⟩
  ask h _ := ⟨h.asks, h.free⟩
  collect {l _ _} h ticket := by
    unfold Lookup.collect
    split <;> exact ⟨h.asks, h.free⟩

end Prompt

/-! ## What is still to come -/

/-- The reply to what is expected is there, or its demand is the last perishable one that waits. -/
def Coming (l : Lookup) : Prop :=
  ∀ e, l.expected = some e →
    (∃ r ∈ l.replies, l.isExpected r = true) ∨
      ((l.inHand ++ l.queue).filter Demand.isPerishable).getLast? =
        some (.latest e.generation e.text)

theorem Coming.not_isLate (h : Coming l) (done : l.inHand ++ l.queue = []) : l.isLate = false := by
  cases late : l.isLate with
  | false => rfl
  | true =>
    obtain ⟨e, waiting, _⟩ := overdue_of_isLate late
    rcases h e waiting with ⟨r, arrived, counts⟩ | last
    · have missing := (Bool.and_eq_true_iff.mp late).1
      have ignored := List.all_eq_true.mp missing r arrived
      rw [counts] at ignored
      cases ignored
    · rw [done] at last
      cases last

theorem Coming.serveNext (h : Coming l) (prompt : Prompt f l) : Coming l.serveNext := by
  cases inHand : l.inHand with
  | nil =>
    rw [prompt.serveNext_idle inHand]
    exact h
  | cons d rest =>
    rw [prompt.serveNext inHand]
    intro e waiting
    rcases h e waiting with ⟨r, arrived, counts⟩ | last
    · exact .inl ⟨r, List.mem_append_left _ arrived, counts⟩
    rw [inHand, List.cons_append] at last
    by_cases more : ((rest ++ l.queue).filter Demand.isPerishable) = []
    · cases perishable : d.isPerishable with
      | false => simp [perishable, more] at last
      | true =>
        have only : d = .latest e.generation e.text := by simpa [perishable, more] using last
        refine .inl ⟨replyTo f d, by simp, ?_⟩
        exact isExpected_iff.mpr ⟨e, e.text, waiting, only⟩
    · cases perishable : d.isPerishable with
      | false => exact .inr (by simpa [perishable] using last)
      | true =>
        rw [List.filter_cons_of_pos perishable, List.getLast?_cons_of_ne_nil more] at last
        exact .inr last

theorem Coming.take (h : Coming l) (count : Nat) : Coming (l.take count) := by
  have step := l.takes count
  generalize l.take count = after at step
  cases step with
  | busy => exact h
  | batch free =>
    intro e waiting
    rcases h e waiting with arrived | last
    · exact .inl arrived
    · refine .inr ?_
      rw [free, List.nil_append] at last
      simpa only [Demand.getLast?_after_batch, List.take_append_drop] using last

theorem Coming.harvest (h : Coming l) : Coming l.harvest.2 := by
  have step := l.harvests
  generalize l.harvest = outcome at step
  obtain ⟨brought, after⟩ := outcome
  cases step with
  | nothing missing early =>
    intro e waiting
    rcases h e waiting with ⟨r, arrived, counts⟩ | last
    · cases (missing r arrived).symm.trans counts
    · exact .inr last
  | _ =>
    intro e waiting
    cases waiting

theorem Coming.collect (h : Coming l) (ticket : Nat) : Coming (l.collect ticket).2 := by
  unfold Lookup.collect
  split
  · intro e waiting
    rcases h e waiting with ⟨r, arrived, counts⟩ | last
    · obtain ⟨e', text, _, demand⟩ := isExpected_iff.mp counts
      refine .inl ⟨r, List.mem_filter.mpr ⟨arrived, ?_⟩, counts⟩
      simp [isReplyTo, demand]
    · exact .inr last
  · exact h

theorem Coming.kept (f : String → Except Fault (List Suggestion)) :
    Kept fun l _ _ => Prompt f l ∧ Coming l where
  serveNext {_ s p} h := ⟨(Prompt.kept f).serveNext (s := s) (p := p) h.1, h.2.serveNext h.1⟩
  take {_ s p} h count := ⟨(Prompt.kept f).take (s := s) (p := p) h.1 count, h.2.take count⟩
  advanceTo h _ := ⟨⟨h.1.asks, h.1.free⟩, h.2⟩
  request {l _ _} h text := by
    refine ⟨⟨h.1.asks, h.1.free⟩, ?_⟩
    intro e waiting
    cases waiting
    refine .inr ?_
    simp [Lookup.request, ← List.append_assoc, Demand.isPerishable]
  cancel h := by
    refine ⟨⟨h.1.asks, h.1.free⟩, ?_⟩
    intro e waiting
    cases waiting
  harvest {_ s p} h := ⟨(Prompt.kept f).harvest (s := s) (p := p) h.1, h.2.harvest⟩
  ask {l _ _} h text := by
    refine ⟨⟨h.1.asks, h.1.free⟩, ?_⟩
    intro e waiting
    rcases h.2 e waiting with arrived | last
    · exact .inl arrived
    · refine .inr ?_
      simpa [Lookup.ask, Demand.isPerishable] using last
  collect {_ s p} h ticket :=
    ⟨(Prompt.kept f).collect (s := s) (p := p) h.1 ticket, h.2.collect ticket⟩

end Lookup

end TagFormula
