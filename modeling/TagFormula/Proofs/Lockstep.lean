import TagFormula.Editor.Run

/-!
Two editors that go on side by side. A relation between editors that says the same of formula,
session and identifiers, and that a few primitive changes on both sides keep, is kept by everything
an editor does apart from its lookup and its store: the answers are the same, and the editors after
them are related again. What is asked of a lookup is left to the relation at hand.
-/
namespace TagFormula.Editor

variable {σ τ : Type} {R : Editor σ → Editor τ → Prop} {e : Editor σ} {d : Editor τ}

inductive Alike (R : Editor σ → Editor τ → Prop) {α : Type} :
    α × Editor σ → α × Editor τ → Prop where
  | mk (answer : α) {e : Editor σ} {d : Editor τ} (after : R e d) : Alike R (answer, e) (answer, d)

namespace Alike

variable {α β : Type} {r : α × Editor σ} {s : α × Editor τ}

theorem answer (h : Alike R r s) : s.1 = r.1 := by
  cases h
  rfl

theorem after (h : Alike R r s) : R r.2 s.2 := by
  cases h with
  | mk _ after => exact after

theorem told (h : Alike R r s) (f : α → β) : f s.1 = f r.1 ∧ R r.2 s.2 :=
  ⟨congrArg f h.answer, h.after⟩

theorem map (h : Alike R r s) (f : α → β) : Alike R (f r.1, r.2) (f s.1, s.2) := by
  cases h with
  | mk answer after => exact .mk _ after

end Alike

/-- What a relation says of both sides, and the changes that keep it. -/
structure Lockstep [Store σ] [Store τ] (R : Editor σ → Editor τ → Prop) : Prop where
  formula : ∀ {e d}, R e d → d.formula = e.formula
  session : ∀ {e d}, R e d → d.session = e.session
  ids : ∀ {e d}, R e d → d.ids = e.ids
  note : ∀ {e d}, R e d → ∀ n m, R (e.note n) (d.note m)
  inSession : ∀ {e d}, R e d → ∀ s, R { e with session := s } { d with session := s }
  inIds : ∀ {e d}, R e d → ∀ i, R { e with ids := i } { d with ids := i }
  /-- A new formula, saved at once on both sides. -/
  inFormula : ∀ {e d}, R e d → ∀ f,
    R { e with formula := f }.persist { d with formula := f }.persist
  cancel : ∀ {e d}, R e d → R (e.onLookup Lookup.cancel) (d.onLookup Lookup.cancel)

/-- What a relation makes of two actions that go through, and of two that end before. -/
structure Delivery (R : Editor σ → Editor τ → Prop)
    (D : Except Fault (List Effect) × Editor σ → Except Fault (List Effect) × Editor τ → Prop) :
    Prop where
  deliver : ∀ {e d}, R e d → ∀ effects, D (Editor.deliver effects e) (Editor.deliver effects d)
  stop : ∀ {e d}, R e d → ∀ outcome, D (outcome, e) (outcome, d)

namespace Lockstep

variable [Store σ] [Store τ] (k : Lockstep R)
include k

theorem outOfRange (h : R e d) (i : Nat) : d.outOfRange i = e.outOfRange i := by
  rw [Editor.outOfRange, k.formula h, Editor.outOfRange]

/-! ## New tags -/

theorem freshVar (h : R e d) (name : String) : Alike R (e.freshVar name) (d.freshVar name) := by
  unfold Editor.freshVar
  rw [k.ids h]
  exact .mk _ (k.inIds h _)

theorem insertion (h : R e d) (s : Suggestion) : Alike R (e.insertion s) (d.insertion s) := by
  unfold Editor.insertion
  rw [k.ids h]
  exact .mk _ (k.inIds h _)

theorem renamed (h : R e d) (old : Token) (name : String) :
    Alike R (e.renamed old name) (d.renamed old name) := by
  unfold Editor.renamed
  cases Number.read? name with
  | some v => exact .mk _ h
  | none =>
    cases old with
    | var id _ _ _ => exact .mk _ h
    | number v => exact k.freshVar h name
    | operator op => exact k.freshVar h name

/-! ## Changes -/

theorem append (h : R e d) (t : Token) : R (e.append t) (d.append t) := by
  have changed := k.inFormula (k.note h (.appended t) (.appended t)) (e.formula ++ [t])
  unfold Editor.append
  rw [k.formula h]
  exact changed

theorem removeAt (h : R e d) (i : Nat) : Alike R (e.removeAt i) (d.removeAt i) := by
  unfold Editor.removeAt
  rw [k.formula h, k.session h]
  cases e.formula.removeAt i with
  | error fault => exact .mk _ h
  | ok removed => exact .mk _ (k.inFormula (k.inSession (k.note h _ _) _) _)

theorem replaceAt (h : R e d) (i : Nat) (t : Token) :
    Alike R (e.replaceAt i t) (d.replaceAt i t) := by
  unfold Editor.replaceAt
  rw [k.formula h]
  cases e.formula.replaceAt i t with
  | error fault => exact .mk _ h
  | ok replaced => exact .mk _ (k.inFormula (k.note h _ _) _)

theorem clear (h : R e d) : R e.clear d.clear := by
  unfold Editor.clear
  rw [k.session h]
  exact k.inFormula (k.inSession h _) []

/-! ## The entry field -/

theorem clearEntry (h : R e d) : R e.clearEntry d.clearEntry := by
  unfold Editor.clearEntry
  rw [k.session h]
  exact k.cancel (k.inSession h _)

theorem choose (h : R e d) (s : Suggestion) : R (e.choose s) (d.choose s) := by
  have made := k.insertion h s
  unfold Editor.choose
  generalize e.insertion s = r at made
  generalize d.insertion s = q at made
  cases made with
  | mk t later => exact k.clearEntry (k.append later t)

theorem commit (h : R e d) (made : Alike R e.entryToken d.entryToken) : R e.commit d.commit := by
  unfold Editor.commit
  rw [k.session h]
  split
  · exact h
  · generalize e.entryToken = r at made
    generalize d.entryToken = s at made
    cases made with
    | mk t later => exact k.clearEntry (k.append later t)

theorem endTag (h : R e d) (text : String) (made : Alike R (e.resolve text) (d.resolve text)) :
    R (e.endTag text) (d.endTag text) := by
  unfold Editor.endTag
  split
  · exact h
  · generalize e.resolve text = r at made
    generalize d.resolve text = s at made
    cases made with
    | mk t later => exact k.append later t

theorem typeOperator (h : R e d) (op : Operator)
    (made : Alike R
      ({ e with session := { e.session with entry := "" } }.resolve e.session.entry)
      ({ d with session := { e.session with entry := "" } }.resolve e.session.entry)) :
    R (e.typeOperator op) (d.typeOperator op) := by
  have emptied := k.inSession h { e.session with entry := "" }
  simp only [Editor.typeOperator]
  rw [k.session h]
  exact k.clearEntry (k.append (k.endTag emptied _ made) _)

theorem evaluate (committed : R e.commit d.commit) : Alike R e.evaluate d.evaluate := by
  simp only [Editor.evaluate]
  rw [k.formula committed]
  cases e.commit.formula.trace with
  | error fault => exact .mk _ (k.note committed _ _)
  | ok value =>
    simp only
    split
    · exact .mk _ (k.note committed _ _)
    · exact .mk _ (k.note (k.note committed _ _) _ _)

theorem erase (h : R e d) : Alike R e.erase d.erase := by
  unfold Editor.erase
  rw [k.session h, k.formula h]
  split
  · exact (k.removeAt h _).map _
  · exact .mk _ h

/-! ## Selection and renames -/

theorem applyName (h : R e d) (i : Nat) (old : Token) (name : String) :
    Alike R (e.applyName i old name) (d.applyName i old name) := by
  have made := k.renamed h old name
  unfold Editor.applyName
  split
  · exact .mk _ h
  · generalize e.renamed old name = r at made
    generalize d.renamed old name = s at made
    cases made with
    | mk t later => exact (k.replaceAt later i t).map _

theorem finishRename (h : R e d) : Alike R e.finishRename d.finishRename := by
  have closed := k.inSession h e.session.withoutRename
  unfold Editor.finishRename
  rw [k.session h]
  cases e.session.renameAt with
  | none => exact .mk _ h
  | some i =>
    have same : d.formula[i]? = e.formula[i]? := by rw [k.formula h]
    simp only
    rw [same, k.outOfRange h]
    cases e.formula[i]? with
    | none => exact .mk _ closed
    | some old => exact k.applyName closed i old _

theorem finishOtherRename (h : R e d) (i : Nat) :
    Alike R (e.finishOtherRename i) (d.finishOtherRename i) := by
  unfold Editor.finishOtherRename
  rw [k.session h]
  cases e.session.renameAt with
  | none => exact .mk _ h
  | some j =>
    simp only
    split
    · exact .mk _ h
    · exact k.finishRename h

theorem select (h : R e d) (i : Nat) : Alike R (e.select i) (d.select i) := by
  have finished := k.finishOtherRename h i
  unfold Editor.select
  rw [k.formula h, k.outOfRange h]
  split
  · exact .mk _ h
  · generalize e.finishOtherRename i = r at finished
    generalize d.finishOtherRename i = s at finished
    cases finished with
    | mk outcome later =>
      cases outcome with
      | error fault => exact .mk _ later
      | ok done =>
        simp only
        rw [k.session later]
        exact .mk _ (k.inSession later _)

theorem startRename (h : R e d) (i : Nat) (label : String) :
    Alike R (e.startRename i label) (d.startRename i label) := by
  have finished := k.finishOtherRename h i
  unfold Editor.startRename
  generalize e.finishOtherRename i = r at finished
  generalize d.finishOtherRename i = s at finished
  cases finished with
  | mk outcome later =>
    cases outcome with
    | error fault => exact .mk _ later
    | ok done =>
      simp only
      rw [k.session later]
      exact .mk _ (k.inSession later _)

theorem replaceWith (h : R e d) (i : Nat) (s : Suggestion) :
    Alike R (e.replaceWith i s) (d.replaceWith i s) := by
  have made := k.insertion h s
  unfold Editor.replaceWith
  generalize e.insertion s = r at made
  generalize d.insertion s = q at made
  cases made with
  | @mk t c b later =>
    have replaced := k.replaceAt later i t
    simp only
    generalize c.replaceAt i t = r at replaced
    generalize b.replaceAt i t = q at replaced
    cases replaced with
    | mk outcome last =>
      cases outcome with
      | error fault => exact .mk _ last
      | ok old =>
        simp only
        rw [k.session last]
        exact .mk _ (k.inSession last _)

theorem typeRename (h : R e d) (text : String) : R (e.typeRename text) (d.typeRename text) := by
  unfold Editor.typeRename
  rw [k.session h]
  split
  · exact k.inSession h _
  · exact h

theorem cancelRename (h : R e d) : R e.cancelRename d.cancelRename := by
  unfold Editor.cancelRename
  rw [k.session h]
  exact k.inSession h _

end Lockstep

/-! ## Actions -/

def Consults [Store σ] [Store τ] (R : Editor σ → Editor τ → Prop) (e : Editor σ) (d : Editor τ) :
    Action → Prop
  | .type text => R (e.type text) (d.type text)
  | .operator c => ∀ op, Operator.ofChar? c = some op → R (e.typeOperator op) (d.typeOperator op)
  | .commit | .evaluate => R e.commit d.commit
  | .acceptFirst => R e.chooseFirst d.chooseFirst
  | _ => True

variable {D : Except Fault (List Effect) × Editor σ → Except Fault (List Effect) × Editor τ → Prop}

theorem Delivery.deliverAfter (δ : Delivery R D) {r : Except Fault Unit × Editor σ}
    {s : Except Fault Unit × Editor τ} (h : Alike R r s) :
    D (Editor.deliverAfter r) (Editor.deliverAfter s) := by
  cases h with
  | mk outcome after =>
    cases outcome with
    | error fault => exact δ.stop after _
    | ok done => exact δ.deliver after []

namespace Lockstep

variable [Store σ] [Store τ] (k : Lockstep R) (δ : Delivery R D)
include k δ

theorem carryOut_startRename (h : R e d) (i : Nat) :
    D (e.carryOut (.startRename i)) (d.carryOut (.startRename i)) := by
  unfold Editor.carryOut
  simp only
  rw [k.formula h, k.outOfRange h]
  cases e.formula[i]? with
  | none => exact δ.stop h _
  | some t =>
    simp only
    split
    · exact δ.stop (k.note h _ _) _
    · exact δ.deliverAfter (k.startRename h i _)

theorem carryOut (h : R e d) (a : Action) (consulted : Consults R e d a) :
    D (e.carryOut a) (d.carryOut a) := by
  cases a with
  | type text => exact δ.deliver consulted []
  | erase => exact δ.deliverAfter (k.erase h)
  | operator c =>
    unfold Consults at consulted
    unfold Editor.carryOut
    simp only
    cases known : Operator.ofChar? c with
    | none => exact δ.deliver h []
    | some op => exact δ.deliver (consulted op known) []
  | commit => exact δ.deliver consulted []
  | acceptFirst => exact δ.deliver consulted []
  | choose s => exact δ.deliver (k.choose h s) []
  | evaluate =>
    have evaluated := k.evaluate consulted
    unfold Editor.carryOut
    generalize e.evaluate = r at evaluated
    generalize d.evaluate = s at evaluated
    cases evaluated with
    | mk effect later => exact δ.deliver later [effect]
  | select i => exact δ.deliverAfter (k.select h i)
  | replaceWith i s => exact δ.deliverAfter (k.replaceWith h i s)
  | remove i => exact δ.deliverAfter ((k.removeAt h i).map _)
  | startRename i => exact k.carryOut_startRename δ h i
  | typeRename text => exact δ.deliver (k.typeRename h text) []
  | finishRename => exact δ.deliverAfter (k.finishRename h)
  | cancelRename => exact δ.deliver (k.cancelRename h) []
  | clickOutside => exact δ.deliverAfter (k.finishRename h)
  | clear => exact δ.deliver (k.clear h) []

end Lockstep

end TagFormula.Editor
