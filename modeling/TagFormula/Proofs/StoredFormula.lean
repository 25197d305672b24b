import TagFormula.Proofs.JsonText
import TagFormula.Storage.Record

/-!
A stored formula is read back as it was: every tag with its kind, identifier, name and category,
and its value to the last bit. So what has been read once is stored in one and the same text from
then on.
-/
namespace TagFormula

theorem Operator.ofText?_singleton (op : Operator) :
    ofText? (String.singleton op.symbol) = some op :=
  ofText?_eq_some_iff.mpr rfl

namespace Record

theorem ofJson?_toJson (r : Record) : ofJson? r.toJson = some r := by
  cases r with
  | number v => rfl
  | var id name v category => cases category <;> rfl
  | operator symbol => rfl

theorem toToken_ofToken (t : Token) : (ofToken t).toToken = .ok t := by
  cases t with
  | number v => rw [ofToken, toToken, Token.ofFloat, Amount.ofFloat_val]
  | var id name v category => rw [ofToken, toToken, Amount.ofFloat_val]
  | operator op => rw [ofToken, toToken, Operator.ofText?_singleton]

theorem fits_toJson (t : Token) (depth : Nat) : Json.Fits (depth + 1) (ofToken t).toJson := by
  have none : ∀ m ∈ ([] : List (String × Json)), Json.Fits depth m.2 := List.forall_mem_nil _
  cases t with
  | number v =>
    refine .object (List.forall_mem_cons.mpr ⟨.string _, ?_⟩)
    exact List.forall_mem_cons.mpr ⟨.number v.finite, none⟩
  | var id name v category =>
    refine .object (List.forall_mem_append.mpr ⟨?_, ?_⟩)
    · refine List.forall_mem_cons.mpr ⟨.string _, List.forall_mem_cons.mpr ⟨.string _, ?_⟩⟩
      refine List.forall_mem_cons.mpr ⟨.string _, ?_⟩
      exact List.forall_mem_cons.mpr ⟨.number v.finite, none⟩
    · cases category with
      | none => exact none
      | some c => exact List.forall_mem_cons.mpr ⟨.string _, none⟩
  | operator op =>
    refine .object (List.forall_mem_cons.mpr ⟨.string _, ?_⟩)
    exact List.forall_mem_cons.mpr ⟨.string _, none⟩

end Record

namespace Formula

theorem records?_toStored (f : Formula) : records? f.toStored = some (f.map Record.ofToken) := by
  have fits : Json.Fits Json.maxDepth (.array (f.map fun t => (Record.ofToken t).toJson)) := by
    refine .array ?_
    intro v member
    obtain ⟨t, _, rfl⟩ := List.mem_map.mp member
    exact Record.fits_toJson t _
  have inverse : Record.ofJson? ∘ (fun t => (Record.ofToken t).toJson) =
      fun t => pure (Record.ofToken t) := by
    funext t
    exact Record.ofJson?_toJson (Record.ofToken t)
  rw [records?, toStored, Json.read?_write fits]
  simp only
  rw [List.mapM_map, inverse, List.mapM_pure]
  rfl

theorem ofStored_toStored (f : Formula) : ofStored f.toStored = .ok f := by
  have inverse : Record.toToken ∘ Record.ofToken = fun t => pure t := by
    funext t
    exact Record.toToken_ofToken t
  rw [ofStored, records?_toStored]
  simp only
  rw [List.mapM_map, inverse, List.mapM_pure, List.map_id']
  rfl

theorem ofStored_of_map {text : String} {f : Formula}
    (given : (ofStored text).map some = .ok (some f)) : ofStored text = .ok f := by
  cases read : ofStored text with
  | error fault =>
    rw [read] at given
    cases given
  | ok g =>
    rw [read] at given
    cases given
    rfl

/-- Equality of tags is that of all they hold, bits of doubles included, so nothing is lost; and
a text that has been read is stored the same way however often it is read again. -/
theorem stored_round_trip :
    (∀ f : Formula, ofStored f.toStored = .ok f) ∧
      ∀ text f, ofStored text = .ok f →
        ofStored f.toStored = .ok f ∧
          ∀ g, ofStored f.toStored = .ok g → g = f ∧ g.toStored.toUTF8 = f.toStored.toUTF8 := by
  refine ⟨ofStored_toStored, ?_⟩
  intro text f _
  refine ⟨ofStored_toStored f, ?_⟩
  intro g again
  have same : g = f := Except.ok.inj (again.symm.trans (ofStored_toStored f))
  exact ⟨same, congrArg (fun h : Formula => h.toStored.toUTF8) same⟩

end Formula

end TagFormula
