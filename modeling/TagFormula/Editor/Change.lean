import TagFormula.Editor.Basic
import TagFormula.Storage.Store

/-!
Changes of the formula. Each one is saved at once; a save that fails becomes a warning and
undoes nothing. A position without a tag is refused, and then nothing changes.
-/
namespace TagFormula.Editor

variable {σ : Type}

/-! ## Storage -/

def persist [Store σ] (e : Editor σ) : Editor σ :=
  match e.store with
  | none => e
  | some s =>
    match Store.save s e.formula with
    | (.ok (), s) =>
      let e := { e with store := some s }
      match Store.path? s with
      | some path => e.note (.saved path e.formula.length)
      | none => e
    | (.error fault, s) =>
      { e with store := some s, warnings := e.warnings ++ [fault] }.note (.notSaved fault)

theorem persist_frame [Store σ] (e : Editor σ) :
    e.persist.formula = e.formula ∧ e.persist.session = e.session ∧
      e.persist.lookup = e.lookup ∧ e.persist.ids = e.ids := by
  unfold persist
  split
  · simp
  · split
    · split <;> simp
    · simp

@[simp] theorem formula_persist [Store σ] (e : Editor σ) : e.persist.formula = e.formula :=
  e.persist_frame.1

@[simp] theorem session_persist [Store σ] (e : Editor σ) : e.persist.session = e.session :=
  e.persist_frame.2.1

@[simp] theorem lookup_persist [Store σ] (e : Editor σ) : e.persist.lookup = e.lookup :=
  e.persist_frame.2.2.1

@[simp] theorem ids_persist [Store σ] (e : Editor σ) : e.persist.ids = e.ids :=
  e.persist_frame.2.2.2

/-- Puts the stored formula in place of the current one. A store that cannot be read changes
nothing; its fault is returned. -/
def load [Store σ] (e : Editor σ) : Option StorageFault × Editor σ :=
  match e.store with
  | none => (none, e)
  | some s =>
    match Store.load s, Store.path? s with
    | .ok (some f), path =>
      let e := match path with
        | some p => e.note (.restored p f.length)
        | none => e
      (none,
        { e.note (.reloaded f.length) with
          formula := f
          session := { e.session with selection := none, renameAt := none } })
    | .ok none, some p => (none, e.note (.nothingStored p))
    | .ok none, none => (none, e)
    | .error fault, _ => (some fault, e.note (.notReloaded fault))

def takeWarnings (e : Editor σ) : List StorageFault × Editor σ :=
  (e.warnings, { e with warnings := [] })

/-! ## Changes -/

def append [Store σ] (e : Editor σ) (t : Token) : Editor σ :=
  { e.note (.appended t) with formula := e.formula ++ [t] }.persist

def removeAt [Store σ] (e : Editor σ) (index : Nat) : Except Fault Token × Editor σ :=
  match e.formula.removeAt index with
  | .error fault => (.error fault, e)
  | .ok (t, f) =>
    (.ok t,
      { e.note (.removed index t) with
        formula := f
        session := e.session.afterRemoval index }.persist)

def replaceAt [Store σ] (e : Editor σ) (index : Nat) (t : Token) :
    Except Fault Token × Editor σ :=
  match e.formula.replaceAt index t with
  | .error fault => (.error fault, e)
  | .ok (old, f) => (.ok old, { e.note (.replaced index old) with formula := f }.persist)

@[simp] theorem formula_append [Store σ] (e : Editor σ) (t : Token) :
    (e.append t).formula = e.formula ++ [t] := by simp [append]

theorem removeAt_of_outside [Store σ] {e : Editor σ} {index : Nat}
    (outside : e.formula.length ≤ index) :
    e.removeAt index = (.error (e.outOfRange index), e) := by
  have refused := Formula.removeAt_eq_error_iff.mpr ⟨outside, rfl⟩
  simp only [removeAt, refused, outOfRange]

theorem replaceAt_of_outside [Store σ] {e : Editor σ} {index : Nat} (t : Token)
    (outside : e.formula.length ≤ index) :
    e.replaceAt index t = (.error (e.outOfRange index), e) := by
  have refused : e.formula.replaceAt index t = _ :=
    Formula.replaceAt_eq_error_iff.mpr ⟨outside, rfl⟩
  simp only [replaceAt, refused, outOfRange]

def clear [Store σ] (e : Editor σ) : Editor σ :=
  { e with
    formula := []
    session := { e.session.withoutRename with selection := none } }.persist

end TagFormula.Editor
