import TagFormula.Proofs.PromptSource

/-!
Batching loses nothing. However the worker cuts the demands into batches, it puts them in the
order they were handed over, every direct one just once, and skips none that a later perishable
one does not supersede. So a client that no deadline overtakes ends with the same candidates,
whenever it harvests and however the worker goes on.
-/
namespace TagFormula

namespace Demand

theorem exists_later_of_skipped {batch before after : List Demand} {d : Demand}
    (split : batch = before ++ d :: after) (skipped : d ∉ withoutSuperseded batch) :
    d.isPerishable = true ∧ ∃ e ∈ after, e.isPerishable = true := by
  induction before generalizing batch with
  | nil =>
    rw [split, List.nil_append, withoutSuperseded] at skipped
    split at skipped
    · next superseded =>
      obtain ⟨perishable, later⟩ := Bool.and_eq_true_iff.mp superseded
      exact ⟨perishable, List.any_eq_true.mp later⟩
    · exact (skipped List.mem_cons_self).elim
  | cons first before ih =>
    refine ih rfl ?_
    intro kept
    apply skipped
    rw [split, List.cons_append, withoutSuperseded]
    split
    · exact kept
    · exact List.mem_cons_of_mem first kept

theorem exists_later_of_skipped_batches {batches : List (List Demand)}
    {queue before after : List Demand} {d : Demand}
    (split : batches.flatten ++ queue = before ++ d :: after)
    (skipped : d ∉ batches.flatMap withoutSuperseded ++ queue) :
    d.isPerishable = true ∧ ∃ e ∈ after, e.isPerishable = true := by
  induction batches generalizing before with
  | nil =>
    have queued : d ∈ queue := by
      have same : queue = before ++ d :: after := split
      rw [same]
      exact List.mem_append_right before List.mem_cons_self
    exact (skipped queued).elim
  | cons batch rest ih =>
    rw [List.flatten_cons, List.append_assoc] at split
    rw [List.flatMap_cons, List.append_assoc] at skipped
    rcases List.append_eq_append_iff.mp split with ⟨more, rfl, later⟩ | ⟨more, inside, later⟩
    · exact ih later fun kept => skipped (List.mem_append_right _ kept)
    · cases more with
      | nil =>
        exact @ih [] later.symm fun kept => skipped (List.mem_append_right _ kept)
      | cons first more =>
        obtain ⟨rfl, rfl⟩ := List.cons.inj later
        obtain ⟨perishable, e, member, latest⟩ :=
          exists_later_of_skipped inside fun kept => skipped (List.mem_append_left _ kept)
        exact ⟨perishable, e, List.mem_append_left _ member, latest⟩

theorem filter_flatMap_withoutSuperseded (batches : List (List Demand)) :
    (batches.flatMap withoutSuperseded).filter (!·.isPerishable) =
      batches.flatten.filter (!·.isPerishable) := by
  induction batches with
  | nil => rfl
  | cons batch rest ih =>
    rw [List.flatMap_cons, List.flatten_cons, List.filter_append, List.filter_append, ih,
      filter_withoutSuperseded]

end Demand

namespace Lookup

/-! ## Numbers -/

def Issued (l : Lookup) : Demand → Prop
  | .latest generation _ => generation ≤ l.generation
  | .direct ticket _ => ticket < l.asked

structure Numbered (l : Lookup) (submitted : List Demand) : Prop where
  distinct : submitted.Nodup
  issued : ∀ d ∈ submitted, l.Issued d

theorem Issued.mono {l m : Lookup} {d : Demand} (h : l.Issued d)
    (generation : l.generation ≤ m.generation) (asked : l.asked ≤ m.asked) : m.Issued d := by
  cases d with
  | latest g text => exact Nat.le_trans h generation
  | direct t text => exact Nat.lt_of_lt_of_le h asked

theorem Numbered.mono {l m : Lookup} {s : List Demand} (h : Numbered l s)
    (generation : l.generation ≤ m.generation) (asked : l.asked ≤ m.asked) : Numbered m s :=
  ⟨h.distinct, fun d member => (h.issued d member).mono generation asked⟩

theorem Numbered.snoc {l m : Lookup} {s : List Demand} {d : Demand} (h : Numbered l s)
    (generation : l.generation ≤ m.generation) (asked : l.asked ≤ m.asked) (now : m.Issued d)
    (not_before : ¬l.Issued d) : Numbered m (s ++ [d]) := by
  constructor
  · refine List.nodup_append.mpr ⟨h.distinct, List.pairwise_singleton _ d, ?_⟩
    rintro a member b last rfl
    exact not_before (List.mem_singleton.mp last ▸ h.issued a member)
  · intro a member
    rcases List.mem_append.mp member with old | new
    · exact (h.issued a old).mono generation asked
    · exact List.mem_singleton.mp new ▸ now

theorem Numbered.kept : Kept fun l s _ => Numbered l s where
  serveNext {l _ _} h := by
    have step := l.serves
    generalize l.next? = first at step
    generalize l.serveNext = after at step
    cases step with
    | idle => exact h
    | replied inHand answer => exact h.mono (Nat.le_refl _) (Nat.le_refl _)
    | stalled inHand answer => exact h.mono (Nat.le_refl _) (Nat.le_refl _)
  take {l _ _} h count := by
    have step := l.takes count
    generalize l.take count = after at step
    cases step with
    | busy => exact h
    | batch free => exact h.mono (Nat.le_refl _) (Nat.le_refl _)
  advanceTo h _ := h.mono (Nat.le_refl _) (Nat.le_refl _)
  request {l _ _} h text :=
    h.snoc (Nat.le_succ _) (Nat.le_refl _) (Nat.le_refl _) (Nat.not_succ_le_self l.generation)
  cancel h := h.mono (Nat.le_succ _) (Nat.le_refl _)
  harvest {l _ _} h := by
    have step := l.harvests
    generalize l.harvest = outcome at step
    obtain ⟨brought, after⟩ := outcome
    cases step <;> exact h.mono (Nat.le_refl _) (Nat.le_refl _)
  ask {l _ _} h text :=
    h.snoc (Nat.le_refl _) (Nat.le_succ _) (Nat.lt_succ_self _) (Nat.lt_irrefl l.asked)
  collect {l _ _} h ticket := by
    unfold Lookup.collect
    split <;> exact h.mono (Nat.le_refl _) (Nat.le_refl _)

/-! ## Direct demands -/

/-- What goes on while a client waits for its direct reply. -/
def Event.isWorkers : Event → Bool
  | .take _ | .serveNext | .drain | .advanceTo _ => true
  | _ => false

variable {f : String → Except Fault (List Suggestion)} {delay : Nat}

namespace Watched

variable {w : Watched}

theorem replies_step_of_isWorkers (prompt : Prompt f w.lookup) {x : Event}
    (workers : x.isWorkers = true) :
    (w.step x).submitted = w.submitted ∧
      ∃ more, (w.step x).put = w.put ++ more ∧
        (w.step x).lookup.replies = w.lookup.replies ++ more.map (replyTo f) := by
  cases x with
  | take count =>
    refine ⟨List.append_nil _, [], rfl, ?_⟩
    have step := w.lookup.takes count
    rw [List.map_nil, List.append_nil, Watched.step, Lookup.perform]
    generalize w.lookup.take count = after at step
    cases step <;> rfl
  | serveNext =>
    refine ⟨List.append_nil _, w.lookup.next?.toList, rfl, ?_⟩
    rw [prompt.next?, Watched.step, Lookup.perform]
    cases inHand : w.lookup.inHand with
    | nil => simp [prompt.serveNext_idle inHand]
    | cons d rest => simp [prompt.serveNext inHand]
  | drain =>
    refine ⟨List.append_nil _, w.lookup.putByDrain, rfl, ?_⟩
    exact congrArg Lookup.replies prompt.drain.2
  | advanceTo time => exact ⟨List.append_nil _, [], rfl, (List.append_nil _).symm⟩
  | _ => cases workers

theorem replies_run_of_isWorkers (prompt : Prompt f w.lookup) {xs : List Event}
    (workers : ∀ x ∈ xs, x.isWorkers = true) :
    (w.run xs).submitted = w.submitted ∧
      ∃ more, (w.run xs).put = w.put ++ more ∧
        (w.run xs).lookup.replies = w.lookup.replies ++ more.map (replyTo f) := by
  induction xs generalizing w with
  | nil => exact ⟨rfl, [], (List.append_nil _).symm, (List.append_nil _).symm⟩
  | cons x xs ih =>
    obtain ⟨now, later⟩ := List.forall_mem_cons.mp workers
    obtain ⟨submitted, more, put, replies⟩ := replies_step_of_isWorkers prompt now
    have prompt : Prompt f (w.step x).lookup := kept_step (Prompt.kept f) prompt x
    obtain ⟨same, rest, all_put, all_replies⟩ := ih prompt later
    refine ⟨same.trans submitted, more ++ rest, ?_, ?_⟩
    · rw [run, all_put, put, List.append_assoc]
    · rw [run, all_replies, replies, List.append_assoc, List.map_append]

end Watched

theorem find?_isReplyTo {demands : List Demand} {ticket : Nat} {text : String}
    (own : ∀ t, .direct ticket t ∈ demands → t = text) :
    (demands.map (replyTo f)).find? (isReplyTo ticket) =
      if .direct ticket text ∈ demands then some (replyTo f (.direct ticket text)) else none := by
  induction demands with
  | nil => rfl
  | cons d rest ih =>
    have ih := ih fun t member => own t (List.mem_cons_of_mem d member)
    cases mine : isReplyTo ticket (replyTo f d) with
    | true =>
      obtain ⟨t, rfl⟩ : ∃ t, d = .direct ticket t := by
        cases d with
        | latest generation t => cases mine
        | direct other t =>
          have same : other = ticket := of_decide_eq_true mine
          exact ⟨t, same ▸ rfl⟩
      obtain rfl := own t List.mem_cons_self
      rw [List.map_cons, List.find?_cons_of_pos mine, if_pos List.mem_cons_self]
    | false =>
      have other : .direct ticket text ≠ d := by
        rintro rfl
        simp [isReplyTo, replyTo] at mine
      rw [List.map_cons, List.find?_cons_of_neg (by simp [mine]), ih]
      simp only [List.mem_cons, other, false_or]

namespace Watched

variable {w : Watched}

theorem collect_after_ask (account : Account (byText f) delay w.lookup w.submitted w.put)
    (numbered : Numbered w.lookup w.submitted) (prompt : Prompt f w.lookup) (text : String)
    (ws : List Event) (workers : ∀ x ∈ ws, x.isWorkers = true) :
    (((w.step (.ask text)).run ws).lookup.collect w.lookup.asked).1 =
      if .direct w.lookup.asked text ∈ ((w.step (.ask text)).run ws).put then f text
      else .error (.lookup (.noAnswer delay)) := by
  have unasked : ∀ t, .direct w.lookup.asked t ∉ w.submitted := by
    intro t member
    exact Nat.lt_irrefl _ (numbered.issued _ member)
  have unput : ∀ t, .direct w.lookup.asked t ∉ w.put :=
    fun t member => unasked t (account.submitted_of_put member)
  have prompt : Prompt f (w.step (.ask text)).lookup := kept_step (Prompt.kept f) prompt _
  have asking := kept_step (Account.kept (byText f) delay) account (.ask text)
  have after := kept_run (Account.kept (byText f) delay) asking ws
  obtain ⟨submitted, more, put, replies⟩ := replies_run_of_isWorkers prompt workers
  generalize (w.step (.ask text)).run ws = v at after submitted put replies ⊢
  have put : v.put = w.put ++ more := put.trans (congrArg (· ++ more) (List.append_nil w.put))
  have own : ∀ t, .direct w.lookup.asked t ∈ more → t = text := by
    intro t member
    have given : .direct w.lookup.asked t ∈ v.submitted :=
      after.submitted_of_put (put ▸ List.mem_append_right _ member)
    rw [submitted] at given
    rcases List.mem_append.mp given with old | new
    · exact (unasked t old).elim
    · cases List.mem_singleton.mp new
      rfl
  have earlier : w.lookup.replies.find? (isReplyTo w.lookup.asked) = none := by
    refine List.find?_eq_none.mpr ?_
    intro r arrived mine
    have known := (account.replies r arrived).mem
    cases demand : r.demand with
    | latest generation t => simp [isReplyTo, demand] at mine
    | direct ticket t =>
      have same : ticket = w.lookup.asked := by simpa [isReplyTo, demand] using mine
      rw [demand, same] at known
      exact unput t known
  have found : v.lookup.replies.find? (isReplyTo w.lookup.asked) =
      if .direct w.lookup.asked text ∈ v.put
      then some (replyTo f (.direct w.lookup.asked text)) else none := by
    have arrived : v.lookup.replies = w.lookup.replies ++ more.map (replyTo f) := replies
    rw [arrived, List.find?_append, earlier, Option.none_or, find?_isReplyTo own, put]
    simp only [List.mem_append, unput, false_or]
  rw [Lookup.collect, found]
  split
  · next r answered =>
    split at answered
    · next member =>
      cases answered
      rw [if_pos member]
      rfl
    · cases answered
  · next missing =>
    split at missing
    · cases missing
    · next unknown => rw [if_neg unknown, after.waits]

theorem searchNow_found (account : Account (byText f) delay w.lookup w.submitted w.put)
    (numbered : Numbered w.lookup w.submitted) (prompt : Prompt f w.lookup) (text : String) :
    (w.lookup.searchNow text).1 = f text := by
  have asking : Prompt f (w.step (.ask text)).lookup := kept_step (Prompt.kept f) prompt _
  have waited := collect_after_ask account numbered prompt text [.drain]
    (List.forall_mem_singleton.mpr rfl)
  have put : .direct w.lookup.asked text ∈ ((w.step (.ask text)).run [.drain]).put := by
    refine List.mem_append_right _ ?_
    show _ ∈ (w.step (.ask text)).lookup.putByDrain
    rw [asking.drain.1]
    refine List.mem_append_right _ ?_
    refine Decidable.byContradiction fun skipped => ?_
    have queue : (w.step (.ask text)).lookup.queue =
        w.lookup.queue ++ .direct w.lookup.asked text :: [] := rfl
    obtain ⟨perishable, _⟩ := Demand.exists_later_of_skipped queue skipped
    cases perishable
  rw [if_pos put] at waited
  exact waited

/-! ## What the client ends with -/

end Watched

def lastDirective (xs : List Event) : Option Event := (xs.filter Event.isDirective).getLast?

theorem lastDirective_snoc (xs : List Event) {x : Event} (other : x.isDirective = false) :
    lastDirective (xs ++ [x]) = lastDirective xs := by
  simp [lastDirective, other]

theorem lastDirective_snoc_directive (xs : List Event) {x : Event} (is : x.isDirective = true) :
    lastDirective (xs ++ [x]) = some x := by
  simp [lastDirective, is]

theorem Stands.lastDirective {history before : List Moment} {text : String}
    (s : Stands history before text) :
    lastDirective (history.map Moment.event) = some (.request text) := by
  obtain ⟨since, rfl, idle⟩ := s
  have none_since : (since.map Moment.event).filter Event.isDirective = [] := by
    refine List.filter_eq_nil_iff.mpr ?_
    intro x member directive
    obtain ⟨m, inside, rfl⟩ := List.mem_map.mp member
    have quiet := (Bool.and_eq_true_iff.mp (idle m inside)).1
    rw [Moment.isDirective, directive] at quiet
    cases quiet
  rw [Lookup.lastDirective, List.map_append, List.map_cons, List.filter_append,
    List.filter_cons_of_pos rfl, none_since]
  exact List.getLast?_concat

def settledBy (f : String → Except Fault (List Suggestion)) :
    Option Event → List Suggestion × String
  | some (.request text) =>
    match f text with
    | .ok found => (found, text)
    | .error _ => ([], "")
  | _ => ([], "")

theorem settled_of_tells {put : List Demand} {generation : Nat} {text : String} {brought : Harvest}
    {v : View} (h : Tells (byText f) delay put (.latest generation text) False brought v) :
    (v.candidates, v.candidatesText) = settledBy f (some (.request text)) := by
  cases brought with
  | nothing => exact h.elim
  | candidates =>
    obtain ⟨_, named, answered⟩ := h
    have result : f text = .ok v.candidates := answered.byText.symm
    rw [settledBy, result, named]
    rfl
  | unavailable fault =>
    obtain ⟨_, empty, unnamed, why⟩ := h
    rcases why with ⟨late, _⟩ | ⟨cause, answered, _⟩
    · exact late.elim
    · have result : f text = .error cause := answered.byText.symm
      rw [settledBy, result, empty, unnamed]

/-- Whether no harvest of a run finds the deadline over and the reply not there. -/
def onTime : Lookup → List Event → Bool
  | _, [] => true
  | l, x :: rest => (x != .harvest || !l.isLate) && onTime (l.perform x).2 rest

/-- Every demand has been put to the source, and every reply taken in. -/
def Drained (l : Lookup) : Prop := l.queue = [] ∧ l.inHand = [] ∧ l.replies = []

theorem Coming.settled_of_drained {l : Lookup} (h : Coming l) (drained : Drained l) :
    l.expected = none := by
  obtain ⟨queue, inHand, replies⟩ := drained
  cases waiting : l.expected with
  | none => rfl
  | some e =>
    rcases h e waiting with ⟨r, arrived, _⟩ | last
    · rw [replies] at arrived
      cases arrived
    · rw [queue, inHand] at last
      cases last

namespace Watched

variable {w : Watched}

/-- As long as no deadline overtakes it, a client that expects nothing has what the source says
to its last directive. -/
structure Settling (f : String → Except Fault (List Suggestion)) (delay : Nat) (w : Watched) :
    Prop where
  sound : w.Sound (byText f) delay
  coming : Prompt f w.lookup ∧ Coming w.lookup
  settled : w.lookup.view.expected = none →
    (w.lookup.view.candidates, w.lookup.view.candidatesText) = settledBy f (lastDirective w.events)

theorem Settling.harvested (h : w.Settling f delay) {m : Lookup} {put : List Demand}
    (view : m.view = w.lookup.view) (account : Account (byText f) delay m w.submitted put)
    (early : m.isLate = false) (settled : m.harvest.2.view.expected = none) :
    (m.harvest.2.view.candidates, m.harvest.2.view.candidatesText) =
      settledBy f (lastDirective w.events) := by
  rcases h.sound.told view account m.harvests with ⟨_, same⟩ | ⟨_, before, text, stands, tells⟩
  · rw [same] at settled ⊢
    exact h.settled settled
  · rw [events, stands.lastDirective]
    refine settled_of_tells (tells.imp ?_)
    intro late
    cases early.symm.trans late

theorem settling_new (f : String → Except Fault (List Suggestion)) (delay : Nat) :
    (new (byText f) delay).Settling f delay where
  sound := sound_new (byText f) delay
  coming := by
    refine ⟨⟨rfl, rfl⟩, ?_⟩
    intro e waiting
    cases waiting
  settled _ := rfl

theorem Settling.step (h : w.Settling f delay) {x : Event}
    (timely : x = .harvest → w.lookup.isLate = false) : (w.step x).Settling f delay := by
  refine ⟨h.sound.step x, kept_step (Coming.kept f) h.coming x, ?_⟩
  have unseen (other : x.isDirective = false) (view : (w.step x).lookup.view = w.lookup.view)
      (settled : (w.step x).lookup.view.expected = none) :
      ((w.step x).lookup.view.candidates, (w.step x).lookup.view.candidatesText) =
        settledBy f (lastDirective (w.step x).events) := by
    rw [events_step, lastDirective_snoc _ other]
    rw [view] at settled ⊢
    exact h.settled settled
  cases x with
  | request text =>
    intro settled
    cases settled
  | cancel =>
    intro _
    rw [events_step, lastDirective_snoc_directive _ rfl]
    rfl
  | harvest =>
    rw [events_step, lastDirective_snoc _ rfl]
    exact h.harvested rfl h.sound.account (timely rfl)
  | await =>
    rw [events_step, lastDirective_snoc _ rfl]
    -- The worker has sent all its replies by then, so waiting never reaches the deadline.
    obtain ⟨m, view, hands, ⟨account, _, coming⟩, same⟩ :=
      ((Account.kept (byText f) delay).both (Coming.kept f)).await ⟨h.sound.account, h.coming⟩
    have early : m.isLate = false := by
      refine coming.not_isLate ?_
      rw [hands, h.coming.1.drain.2]
      rfl
    have told := h.harvested view account early
    rw [← same] at told
    exact told
  | searchNow text => exact unseen rfl (w.lookup.view_searchNow text)
  | ask text => exact unseen rfl (w.lookup.view_ask text)
  | collect ticket => exact unseen rfl (w.lookup.view_collect ticket)
  | take count => exact unseen rfl (w.lookup.view_take count)
  | serveNext => exact unseen rfl w.lookup.view_serveNext
  | drain => exact unseen rfl w.lookup.view_drain
  | advanceTo time => exact unseen rfl (w.lookup.view_advanceTo time)

theorem Settling.run (h : w.Settling f delay) {xs : List Event}
    (timely : onTime w.lookup xs = true) : (w.run xs).Settling f delay := by
  induction xs generalizing w with
  | nil => exact h
  | cons x xs ih =>
    obtain ⟨now, later⟩ := Bool.and_eq_true_iff.mp timely
    refine ih (h.step ?_) later
    rintro rfl
    simpa using now

theorem settled_of_drained {xs : List Event} (timely : onTime (.new (byText f) delay) xs = true)
    (drained : Drained ((new (byText f) delay).run xs).lookup) :
    ((new (byText f) delay).run xs).lookup.isWaiting = false ∧
      (((new (byText f) delay).run xs).lookup.candidates,
        ((new (byText f) delay).run xs).lookup.candidatesText) =
        settledBy f (lastDirective xs) := by
  have settling := (settling_new f delay).run timely
  have nothing := settling.coming.2.settled_of_drained drained
  have settled := settling.settled nothing
  rw [events_run] at settled
  exact ⟨by rw [isWaiting, nothing]; rfl, settled⟩

theorem onTime_append (w : Watched) (xs ys : List Event) :
    onTime w.lookup (xs ++ ys) = (onTime w.lookup xs && onTime (w.run xs).lookup ys) := by
  induction xs generalizing w with
  | nil => rfl
  | cons x xs ih =>
    have rest := ih (w.step x)
    rw [List.cons_append, onTime, onTime, Bool.and_assoc]
    exact congrArg _ rest

theorem drain_harvest (coming : Prompt f w.lookup ∧ Coming w.lookup) :
    onTime w.lookup [.drain, .harvest] = true ∧ Drained (w.run [.drain, .harvest]).lookup := by
  have still : Coming w.lookup.drain := (kept_step (Coming.kept f) coming .drain).2
  have hands : w.lookup.drain.inHand ++ w.lookup.drain.queue = [] := by
    rw [coming.1.drain.2]
    rfl
  obtain ⟨inHand, queue⟩ := List.append_eq_nil_iff.mp hands
  constructor
  · have early := still.not_isLate hands
    simp [onTime, perform, early]
  · show Drained w.lookup.drain.harvest.2
    have step := w.lookup.drain.harvests
    generalize w.lookup.drain.harvest = outcome at step ⊢
    obtain ⟨brought, after⟩ := outcome
    cases step <;> exact ⟨queue, inHand, rfl⟩

end Watched

/-- The worker's batches keep the order, keep every direct demand, and skip only what a later
perishable demand supersedes; the answers are the source's to the very texts asked; and where no
deadline overtakes the client, neither the batches nor its harvests show in what it ends with. -/
theorem batching_loses_nothing (f : String → Except Fault (List Suggestion)) (delay : Nat)
    (xs : List Event) :
    let w := (Watched.new (byText f) delay).run xs
    let kept := w.put ++ w.lookup.inHand ++ w.lookup.queue
    (w.lookup.served = w.put.length ∧ w.submitted.Nodup ∧ kept.Sublist w.submitted ∧
      kept.filter (!·.isPerishable) = w.submitted.filter (!·.isPerishable)) ∧
    (∀ before d after, w.submitted = before ++ d :: after → d ∉ kept →
      d.isPerishable = true ∧ ∃ e ∈ after, e.isPerishable = true) ∧
    (∀ text, (w.lookup.searchNow text).1 = f text ∧
      ∀ ws, (∀ x ∈ ws, x.isWorkers = true) →
        (((w.step (.ask text)).run ws).lookup.collect w.lookup.asked).1 =
          if .direct w.lookup.asked text ∈ ((w.step (.ask text)).run ws).put then f text
          else .error (.lookup (.noAnswer delay))) ∧
    (onTime (.new (byText f) delay) (xs ++ [.drain, .harvest]) = onTime (.new (byText f) delay) xs ∧
      Drained ((Watched.new (byText f) delay).run (xs ++ [.drain, .harvest])).lookup) ∧
    (onTime (.new (byText f) delay) xs = true → Drained w.lookup →
      w.lookup.isWaiting = false ∧
        (w.lookup.candidates, w.lookup.candidatesText) = settledBy f (lastDirective xs) ∧
        ∀ ys, ys.filter Event.isDirective = xs.filter Event.isDirective →
          onTime (.new (byText f) delay) ys = true →
          Drained ((Watched.new (byText f) delay).run ys).lookup →
          ((Watched.new (byText f) delay).run ys).lookup.candidates = w.lookup.candidates ∧
            ((Watched.new (byText f) delay).run ys).lookup.candidatesText =
              w.lookup.candidatesText ∧
            ((Watched.new (byText f) delay).run ys).lookup.isWaiting = w.lookup.isWaiting) := by
  intro w kept
  have account : Account (byText f) delay w.lookup w.submitted w.put :=
    Watched.kept_run (Account.kept (byText f) delay) (Account.new (byText f) delay) xs
  have numbered : Numbered w.lookup w.submitted :=
    Watched.kept_run Numbered.kept ⟨List.nodup_nil, List.forall_mem_nil _⟩ xs
  have coming : Prompt f w.lookup ∧ Coming w.lookup :=
    Watched.kept_run (Coming.kept f) (Watched.settling_new f delay).coming xs
  obtain ⟨batches, submitted, put⟩ := account.batches
  have kept_eq : kept = batches.flatMap Demand.withoutSuperseded ++ w.lookup.queue :=
    congrArg (· ++ w.lookup.queue) put.symm
  refine ⟨⟨account.served, numbered.distinct, account.sublist, ?_⟩, ?_, ?_, ?_, ?_⟩
  · rw [kept_eq, ← submitted, List.filter_append, List.filter_append,
      Demand.filter_flatMap_withoutSuperseded]
  · intro before d after split skipped
    rw [← submitted] at split
    rw [kept_eq] at skipped
    exact Demand.exists_later_of_skipped_batches split skipped
  · intro text
    refine ⟨Watched.searchNow_found account numbered coming.1 text, ?_⟩
    intro ws workers
    exact Watched.collect_after_ask account numbered coming.1 text ws workers
  · obtain ⟨timely, drained⟩ := Watched.drain_harvest coming
    have both := Watched.onTime_append (Watched.new (byText f) delay) xs [.drain, .harvest]
    rw [timely, Bool.and_true] at both
    exact ⟨both, Watched.run_append _ xs _ ▸ drained⟩
  · intro timely drained
    obtain ⟨idle, settled⟩ := Watched.settled_of_drained timely drained
    refine ⟨idle, settled, ?_⟩
    intro ys same timely' drained'
    obtain ⟨idle', settled'⟩ := Watched.settled_of_drained timely' drained'
    rw [lastDirective, same] at settled'
    obtain ⟨candidates, text⟩ := Prod.mk.inj (settled'.trans settled.symm)
    exact ⟨candidates, text, idle'.trans idle.symm⟩

end Lookup

end TagFormula
