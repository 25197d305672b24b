import TagFormula.Proofs.CommitTiming
import TagFormula.Proofs.EnteredText

/-!
Blanks around the entry. They play no part in what is asked of the lookup, in the blank test, in
the number and in the name a text stands for; the candidates alone are those that hold the text as
it was typed. So two texts that differ in blanks around them have the same candidates brought, and
what comes in is the same as long as the first candidate that is left is the same.
-/
namespace TagFormula

namespace Editor

variable {σ : Type} {e : Editor σ} {x y : String}

/-! ## The same tags -/

theorem formula_commit_of_trim [Store σ] (e : Editor σ) (same : Text.trim x = Text.trim y)
    (first : (e.enter x).candidates.head? = (e.enter y).candidates.head?) :
    (e.enter x).commit.formula = (e.enter y).commit.formula := by
  by_cases blank : Text.isBlankText x = true
  · have left := (e.enter x).appends_commit.formula
    have right := (e.enter y).appends_commit.formula
    rw [committed, entry_enter, if_pos blank] at left
    rw [committed, entry_enter, if_pos (isBlankText_of_trim same ▸ blank)] at right
    exact left.trans right.symm
  · rw [e.commit_of_trim same first blank]

theorem formula_chooseFirst_of_head? [Store σ] (e : Editor σ)
    (first : (e.enter x).candidates.head? = (e.enter y).candidates.head?) :
    (e.enter x).chooseFirst.formula = (e.enter y).chooseFirst.formula := by
  rw [(appends_chooseFirst _).formula, (appends_chooseFirst _).formula, firstChoice, firstChoice,
    first]
  rfl

/-! ## The editor at rest -/

/-- What goes on while nobody does anything, and the suggestions that are taken in. -/
def Event.isIdle : Event → Bool
  | .harvest | .await => true
  | x => x.isWorkers

theorem perform_enter [Store σ] (e : Editor σ) (x : String) {w : Event} (idle : w.isIdle = true) :
    (e.enter x).perform w = ((e.perform w).1, (e.perform w).2.enter x) := by
  have harvested (f : Lookup → Harvest × Lookup) :
      (e.enter x).withLookup f = ((e.withLookup f).1, (e.withLookup f).2.enter x) := by
    obtain ⟨formula, session, lookup, store, warnings, ids, notices⟩ := e
    cases lookup <;> rfl
  cases w with
  | harvest => simp only [perform, harvest, harvested]
  | await => simp only [perform, await, harvested]
  | take count => rfl
  | serveNext => rfl
  | drain => rfl
  | advanceTo time => rfl
  | _ => cases idle

theorem run_enter [Store σ] (e : Editor σ) (x : String) {ws : List Event}
    (idle : ∀ w ∈ ws, w.isIdle = true) :
    (e.enter x).run ws = ((e.run ws).1, (e.run ws).2.enter x) := by
  induction ws generalizing e with
  | nil => rfl
  | cons w ws ih =>
    obtain ⟨now, later⟩ := List.forall_mem_cons.mp idle
    simp only [run, e.perform_enter x now, ih _ later]

theorem typed_trim [Store σ] (e : Editor σ) (x : String) :
    SameEdition (e.perform (.act (.type x))).2
      ((e.perform (.act (.type (Text.trim x)))).2.enter x) := by
  have asked := (e.asks_perform (.act (.type x))).lookup
  have trimmed := (e.asks_perform (.act (.type (Text.trim x)))).lookup
  have asks : e.asking (.act (.type (Text.trim x))) = e.asking (.act (.type x)) := by
    show typeAsks (Text.trim x) = typeAsks x
    simp only [typeAsks, Text.trim_trim]
  rw [asks] at trimmed
  have left := e.perform_type_frame x
  have right := e.perform_type_frame (Text.trim x)
  generalize (e.perform (.act (.type x))).2 = d at *
  generalize (e.perform (.act (.type (Text.trim x)))).2 = c at *
  obtain ⟨formula, session, ids⟩ := left
  obtain ⟨formula', session', ids'⟩ := right
  refine ⟨formula'.trans formula.symm, ?_, trimmed.trans asked.symm, ids'.trans ids.symm⟩
  rw [session, enter, session']

theorem typed_trim_run [Store σ] (e : Editor σ) (x : String) {ws : List Event}
    (idle : ∀ w ∈ ws, w.isIdle = true) :
    let typed := e.run (.act (.type x) :: ws)
    let trimmed := e.run (.act (.type (Text.trim x)) :: ws)
    typed.1.map Outcome.withoutWarnings = trimmed.1.map Outcome.withoutWarnings ∧
      SameEdition typed.2 (trimmed.2.enter x) ∧ trimmed.2.session.entry = Text.trim x := by
  have unloaded : .load ∉ ws := fun loaded => Bool.false_ne_true (idle .load loaded)
  have first : (e.perform (.act (.type (Text.trim x)))).2.session.entry = Text.trim x :=
    congrArg Session.entry (e.perform_type_frame (Text.trim x)).2.1
  have apart := e.typed_trim x
  rw [run_cons, run_cons]
  simp only [List.map_cons, told_type]
  generalize (e.perform (.act (.type x))).2 = d at apart
  generalize (e.perform (.act (.type (Text.trim x)))).2 = c at apart first
  obtain ⟨answers, last⟩ := apart.run unloaded
  have kept := run_enter c (Text.trim x) idle
  rw [run_enter c x idle] at answers last
  rw [enter_of_entry first] at kept
  refine ⟨congrArg (Outcome.effects [] :: ·) answers.symm, last, ?_⟩
  exact congrArg (fun r : List Outcome × Editor σ => r.2.session.entry) kept

theorem formula_operator_of_trim [Store σ] (e : Editor σ) (same : Text.trim x = Text.trim y)
    (c : Char) :
    ((e.enter x).apply (.operator c)).2.formula = ((e.enter y).apply (.operator c)).2.formula := by
  have ended := fun op => typeOperator_of_trim (e.note (.action (.operator c))) op same
  unfold apply carryOut
  simp only
  cases Operator.ofChar? c with
  | none => rfl
  | some op => exact congrArg (fun d : Editor σ => (deliver [] d).2.formula) (ended op)

theorem formula_apply_acceptFirst [Store σ] (e : Editor σ) :
    (e.apply .acceptFirst).2.formula = e.chooseFirst.formula :=
  (e.note (.action .acceptFirst)).appends_chooseFirst.formula.trans
    e.appends_chooseFirst.formula.symm

theorem tokenFor_of_trim (lookup : Option Lookup) (ids : IdSupply)
    (same : Text.trim x = Text.trim y) : tokenFor lookup ids x = tokenFor lookup ids y := by
  simp only [tokenFor, same]

/-- Over every editor, lookup and text, whatever goes on between typing and the tag: the text typed
as it is and without the blanks around it have the same brought, and the candidates for the one are
those for the other that hold the text as it was typed. An operator makes the same tags of both. A
commit takes on each side the first candidate, and without one the same tag on both; so with the
same first candidate every end of the entry makes the same tags. -/
theorem blanks_around_entry [Store σ] (e : Editor σ) (x : String) (ws : List Event)
    (idle : ∀ w ∈ ws, w.isIdle = true) :
    let typed := e.run (.act (.type x) :: ws)
    let trimmed := e.run (.act (.type (Text.trim x)) :: ws)
    typed.1.map Outcome.withoutWarnings = trimmed.1.map Outcome.withoutWarnings ∧
    typed.2.rawCandidates = trimmed.2.rawCandidates ∧
    typed.2.candidates = Suggestion.filter x trimmed.2.candidates ∧
    (typed.2.candidates = trimmed.2.candidates ↔
      ∀ s ∈ trimmed.2.candidates, s.nameContains (Text.lower x).toList = true) ∧
    (∀ c, (typed.2.apply (.operator c)).2.formula = (trimmed.2.apply (.operator c)).2.formula) ∧
    (¬ Text.isBlankText x = true → ∀ a, a = .commit ∨ a = .evaluate →
      let t := tokenFor trimmed.2.lookup trimmed.2.ids x
      (typed.2.apply a).2.formula = trimmed.2.formula ++ [typed.2.firstOr t] ∧
      (trimmed.2.apply a).2.formula = trimmed.2.formula ++ [trimmed.2.firstOr t]) ∧
    (typed.2.candidates.head? = trimmed.2.candidates.head? →
      ∀ a, a = .commit ∨ a = .evaluate ∨ a = .acceptFirst →
        (typed.2.apply a).2.formula = (trimmed.2.apply a).2.formula) := by
  have apart := e.typed_trim_run x idle
  revert apart
  generalize e.run (.act (.type x) :: ws) = typed
  generalize e.run (.act (.type (Text.trim x)) :: ws) = trimmed
  rintro ⟨told, same, entry⟩
  have trims : Text.trim x = Text.trim (Text.trim x) := (Text.trim_trim x).symm
  have stays : trimmed.2.enter (Text.trim x) = trimmed.2 := enter_of_entry entry
  have left : typed.2.candidates = (trimmed.2.enter x).candidates := same.candidates.symm
  have filtered : typed.2.candidates = Suggestion.filter x trimmed.2.candidates := by
    rw [left, candidates, candidates, entry, Suggestion.filter_filter_trim]
    rfl
  have lookup : trimmed.2.lookup = typed.2.lookup := same.lookup
  refine ⟨told, ?_, filtered, ?_, ?_, ?_, ?_⟩
  · rw [rawCandidates, rawCandidates, lookup]
  · rw [filtered]
    exact List.filter_eq_self
  · intro c
    have carried := (same.note (.action (.operator c)) (.action (.operator c))).carryOut
      (.operator c)
    have blanks := trimmed.2.formula_operator_of_trim trims c
    rw [stays] at blanks
    exact carried.edition.formula.symm.trans blanks
  · intro full a commits
    have held : typed.2.session.entry = x := (congrArg Session.entry same.session).symm
    have kept : typed.2.formula = trimmed.2.formula := same.formula.symm
    have supply : typed.2.ids = trimmed.2.ids := same.ids.symm
    have filled : ¬ Text.isBlankText (Text.trim x) = true := isBlankText_of_trim trims ▸ full
    constructor
    · rw [formula_apply_commit _ commits, committed_of_full (held.symm ▸ full), held, kept, supply,
        lookup]
    · rw [formula_apply_commit _ commits, committed_of_full (entry.symm ▸ filled), entry,
        tokenFor_of_trim _ _ trims]
  · intro first a ends
    have heads : (trimmed.2.enter x).candidates.head? =
        (trimmed.2.enter (Text.trim x)).candidates.head? := by
      rw [stays, ← left]
      exact first
    rcases or_assoc.mpr ends with commits | rfl
    · have blanks := trimmed.2.formula_commit_of_trim trims heads
      rw [stays] at blanks
      rw [formula_apply_eq_commit _ commits, formula_apply_eq_commit _ commits, ← blanks]
      exact same.commit.formula.symm
    · have blanks := trimmed.2.formula_chooseFirst_of_head? heads
      rw [stays] at blanks
      rw [formula_apply_acceptFirst, formula_apply_acceptFirst, ← blanks]
      exact same.chooseFirst.formula.symm

theorem blank_before_inner_word :
    let entries := [(⟨"n", "Net rev total", "finance", 40⟩ : Suggestion)]
    let e := Editor.new ⟨0, 0⟩ (some (.new (.catalogue entries) 800)) (none : Option Memory)
    let typed := (e.run [.act (.type " rev"), .drain, .harvest]).2
    let trimmed := (e.run [.act (.type (Text.trim " rev")), .drain, .harvest]).2
    typed.candidates.head? = trimmed.candidates.head? ∧
      (typed.apply .acceptFirst).2.formula =
        [.var "0-0" "Net rev total" (.ofFloat 40) (some "finance")] ∧
      (typed.apply .acceptFirst).2.formula = (trimmed.apply .acceptFirst).2.formula ∧
      ¬ Text.isBlankText " rev" = true ∧
      (typed.apply .commit).2.formula = trimmed.formula ++
        [typed.firstOr (tokenFor trimmed.lookup trimmed.ids " rev")] := by
  intro entries e typed trimmed
  have first : typed.candidates.head? = trimmed.candidates.head? := by decide +kernel
  have taken : (typed.apply .acceptFirst).2.formula =
      [.var "0-0" "Net rev total" (.ofFloat 40) (some "finance")] := by decide +kernel
  have idle : ∀ w ∈ [Event.drain, Event.harvest], w.isIdle = true := by decide
  obtain ⟨_, _, _, _, _, commits, ends⟩ := blanks_around_entry e " rev" [.drain, .harvest] idle
  have full : ¬ Text.isBlankText " rev" = true := by decide
  exact ⟨first, taken, ends first .acceptFirst (.inr (.inr rfl)), full,
    (commits full .commit (.inl rfl)).1⟩

/-- The blank before the text hides the only candidate, so there is nothing to take. -/
theorem blank_hides_candidate :
    let entries := [(⟨"r", "Revenue", "finance", 1200⟩ : Suggestion)]
    let e := Editor.new ⟨0, 0⟩ (some (.new (.catalogue entries) 800)) (none : Option Memory)
    let typed := (e.run [.act (.type " rev"), .drain, .harvest]).2
    let trimmed := (e.run [.act (.type (Text.trim " rev")), .drain, .harvest]).2
    typed.rawCandidates = entries ∧ typed.candidates = [] ∧ trimmed.candidates = entries ∧
      (typed.apply .acceptFirst).2.formula = [] ∧
      (trimmed.apply .acceptFirst).2.formula =
        [.var "0-0" "Revenue" (.ofFloat 1200) (some "finance")] := by
  decide +kernel

end Editor

end TagFormula
