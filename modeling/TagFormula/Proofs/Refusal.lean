import TagFormula.Proofs.EditorSteps

/-!
What an editor refuses. An action is refused for a position of its own that has no tag, and for
nothing else: the rename that an action ends on its way names a tag of the formula after every
run, so ending it cannot fail. A refusal leaves the editor as it was; at most an identifier is
spent on the tag that found no place.
-/
namespace TagFormula

def Action.position? : Action → Option Nat
  | .select i | .replaceWith i _ | .remove i | .startRename i => some i
  | _ => none

namespace Editor

variable {σ : Type}

theorem deliverAfter_of_ok {r : Except Fault Unit × Editor σ} (h : r.1 = .ok ()) :
    ∃ effects, (deliverAfter r).1 = .ok effects := by
  obtain ⟨fault | _, d⟩ := r
  · cases h
  · exact ⟨_, rfl⟩

theorem remove_of_inside [Store σ] {e : Editor σ} {i : Nat} (inside : i < e.formula.length) :
    (e.remove i).1 = .ok () := by
  simp only [remove, (removeAt_of_inside inside).1, Except.map]

theorem carryOut_of_inside [Store σ] {e : Editor σ} (h : e.InRange) {a : Action}
    (inside : ∀ i, a.position? = some i → i < e.formula.length) :
    ∃ effects, (e.carryOut a).1 = .ok effects := by
  cases a with
  | type text => exact ⟨_, rfl⟩
  | erase => exact deliverAfter_of_ok e.does_erase.1
  | operator c =>
    simp only [carryOut]
    cases Operator.ofChar? c with
    | none => exact ⟨_, rfl⟩
    | some op => exact ⟨_, rfl⟩
  | commit => exact ⟨_, rfl⟩
  | acceptFirst => exact ⟨_, rfl⟩
  | choose s => exact ⟨_, rfl⟩
  | evaluate => exact ⟨_, rfl⟩
  | select i => exact deliverAfter_of_ok (select_of_inside h (inside i rfl)).1
  | replaceWith i s => exact deliverAfter_of_ok (replaceWith_of_inside s (inside i rfl)).1
  | remove i => exact deliverAfter_of_ok (remove_of_inside (inside i rfl))
  | startRename i =>
    have found := List.getElem?_eq_getElem (inside i rfl)
    simp only [carryOut, found]
    split
    · exact ⟨_, rfl⟩
    · exact deliverAfter_of_ok (startRename_spec h i _).1
  | typeRename text => exact ⟨_, rfl⟩
  | finishRename => exact deliverAfter_of_ok (finishRename_spec h).1
  | cancelRename => exact ⟨_, rfl⟩
  | clickOutside => exact deliverAfter_of_ok (finishRename_spec h).1
  | clear => exact ⟨_, rfl⟩

theorem carryOut_of_outside [Store σ] {e : Editor σ} {a : Action} {i : Nat}
    (named : a.position? = some i) (outside : e.formula.length ≤ i) :
    ∃ ids, e.carryOut a = (.error (e.outOfRange i), { e with ids := ids }) := by
  cases a with
  | select j =>
    cases named
    refine ⟨e.ids, ?_⟩
    rw [carryOut, select_of_outside outside]
    rfl
  | replaceWith j s =>
    cases named
    -- the tag is made before its place is looked for
    refine ⟨(s.insert e.ids).2, ?_⟩
    rw [carryOut, replaceWith_of_outside s outside]
    rfl
  | remove j =>
    cases named
    refine ⟨e.ids, ?_⟩
    simp only [carryOut, remove, removeAt_of_outside outside]
    rfl
  | startRename j =>
    cases named
    refine ⟨e.ids, ?_⟩
    simp only [carryOut, List.getElem?_eq_none outside]
  | _ => cases named

theorem outside_or_inside (a : Action) (n : Nat) :
    (∃ i, a.position? = some i ∧ n ≤ i) ∨ ∀ i, a.position? = some i → i < n := by
  cases a.position? with
  | none =>
    right
    intro i named
    cases named
  | some i =>
    rcases Nat.lt_or_ge i n with inside | outside
    · right
      intro j named
      cases named
      exact inside
    · exact .inl ⟨i, rfl, outside⟩

theorem apply_eq_error_iff [Store σ] {e : Editor σ} (h : e.InRange) (a : Action)
    (fault : Fault) :
    (e.apply a).1 = .error fault ↔
      ∃ i, a.position? = some i ∧ e.formula.length ≤ i ∧ fault = .index i e.formula.length := by
  have noted : (e.note (.action a)).InRange := h.noted _
  constructor
  · intro refused
    rcases outside_or_inside a e.formula.length with ⟨i, named, outside⟩ | inside
    · obtain ⟨ids, result⟩ := carryOut_of_outside (e := e.note (.action a)) named outside
      have cause := (congrArg Prod.fst result).symm.trans refused
      cases cause
      exact ⟨i, named, outside, rfl⟩
    · obtain ⟨effects, passed⟩ := carryOut_of_inside noted inside
      cases passed.symm.trans refused
  · rintro ⟨i, named, outside, rfl⟩
    obtain ⟨ids, result⟩ := carryOut_of_outside (e := e.note (.action a)) named outside
    exact congrArg Prod.fst result

theorem apply_of_error [Store σ] {e : Editor σ} (h : e.InRange) {a : Action} {fault : Fault}
    (refused : (e.apply a).1 = .error fault) :
    ∃ ids, (e.apply a).2 = { e.note (.action a) with ids := ids } := by
  obtain ⟨i, named, outside, _⟩ := (apply_eq_error_iff h a fault).mp refused
  obtain ⟨ids, result⟩ := carryOut_of_outside (e := e.note (.action a)) named outside
  exact ⟨ids, congrArg Prod.snd result⟩

/-! ## Direct changes and loading -/

theorem removal_refused_iff [Store σ] (e : Editor σ) (i : Nat) (fault : Fault) :
    (e.removeAt i).1 = .error fault ↔
      e.formula.length ≤ i ∧ fault = .index i e.formula.length := by
  rw [← Formula.removeAt_eq_error_iff]
  unfold removeAt
  cases e.formula.removeAt i with
  | error cause => simp
  | ok taken => simp

theorem replacement_refused_iff [Store σ] (e : Editor σ) (i : Nat) (t : Token)
    (fault : Fault) :
    (e.replaceAt i t).1 = .error fault ↔
      e.formula.length ≤ i ∧ fault = .index i e.formula.length := by
  rw [← @Formula.replaceAt_eq_error_iff _ _ t]
  unfold replaceAt
  cases e.formula.replaceAt i t with
  | error cause => simp
  | ok former => simp

theorem load_failed_iff [Store σ] (e : Editor σ) (fault : StorageFault) :
    e.load.1 = some fault ↔ ∃ s, e.store = some s ∧ Store.load s = .error fault := by
  unfold load
  cases e.store with
  | none => simp
  | some s =>
    rcases read : Store.load s with cause | _ | f
    · simp [read]
    · cases path : Store.path? s <;> simp [read, path]
    · simp [read]

theorem load_of_failure [Store σ] {e : Editor σ} {fault : StorageFault}
    (failed : e.load.1 = some fault) : e.load.2 = e.note (.notReloaded fault) := by
  obtain ⟨s, stored, read⟩ := (e.load_failed_iff fault).mp failed
  simp only [load, stored, read]

/-! ## After any run -/

/-- What an editor refuses after any run, and what a refusal leaves behind. -/
theorem refusal_changes_nothing [Store σ] (ids : IdSupply) (lookup : Option Lookup)
    (store : Option σ) (events : List Event) :
    let e := ((Editor.new ids lookup store).run events).2
    (∀ a fault, (e.apply a).1 = .error fault ↔
      ∃ i, a.position? = some i ∧ e.formula.length ≤ i ∧ fault = .index i e.formula.length) ∧
    (∀ a fault, (e.apply a).1 = .error fault →
      ∃ spent, (e.apply a).2 = { e.note (.action a) with ids := spent }) ∧
    (∀ i fault, (e.removeAt i).1 = .error fault ↔
      e.formula.length ≤ i ∧ fault = .index i e.formula.length) ∧
    (∀ i fault, (e.removeAt i).1 = .error fault → (e.removeAt i).2 = e) ∧
    (∀ i t fault, (e.replaceAt i t).1 = .error fault ↔
      e.formula.length ≤ i ∧ fault = .index i e.formula.length) ∧
    (∀ i t fault, (e.replaceAt i t).1 = .error fault → (e.replaceAt i t).2 = e) ∧
    (∀ fault, e.load.1 = some fault ↔
      ∃ s, e.store = some s ∧ Store.load s = .error fault) ∧
    (∀ fault, e.load.1 = some fault → e.load.2 = e.note (.notReloaded fault)) := by
  intro e
  have inRange : e.InRange := inRange_run (inRange_new ids lookup store) events
  refine ⟨apply_eq_error_iff inRange, ?_, e.removal_refused_iff, ?_,
    e.replacement_refused_iff, ?_, e.load_failed_iff, ?_⟩
  · intro a fault refused
    exact apply_of_error inRange refused
  · intro i fault refused
    have outside := ((e.removal_refused_iff i fault).mp refused).1
    rw [removeAt_of_outside outside]
  · intro i t fault refused
    have outside := ((e.replacement_refused_iff i t fault).mp refused).1
    rw [replaceAt_of_outside t outside]
  · intro fault failed
    exact load_of_failure failed

end Editor

end TagFormula
