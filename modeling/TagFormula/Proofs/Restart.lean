import TagFormula.App.Run
import TagFormula.Proofs.FileWrites
import TagFormula.Proofs.StoreLog

/-!
Starting again. The file of a formula always gives back the formula as it stands: it does at the
start, a mutation is written at once, and what is reloaded is what is there. So an application
that starts over the disk another one has left finds the same formula and nothing to warn of.
-/
namespace TagFormula

namespace FormulaFile

theorem load_afterSaves {s : FormulaFile} (saveable : s.Saveable) (fs : List Formula) :
    (Store.afterSaves s fs).path = s.path ∧ (Store.afterSaves s fs).Saveable ∧
      (Store.afterSaves s fs).load = (fs.getLast?.map fun f => .ok (some f)).getD s.load := by
  induction fs generalizing s with
  | nil => exact ⟨rfl, saveable, rfl⟩
  | cons f fs ih =>
    obtain ⟨path, again, loaded⟩ := load_save saveable f
    obtain ⟨samePath, still, last⟩ := ih again
    refine ⟨samePath.trans path, still, last.trans ?_⟩
    rw [loaded, List.getLast?_cons]
    cases fs.getLast? <;> rfl

end FormulaFile

namespace Editor

variable {path : String} {e : Editor FormulaFile} {s : FormulaFile}

/-- The file gives back the formula of the editor. A file that is not there stands for an empty
formula that nobody has changed. -/
structure Mirrored (path : String) (e : Editor FormulaFile) (s : FormulaFile) : Prop where
  store : e.store = some s
  path : s.path = path
  saveable : s.Saveable
  loads : s.load = .ok (some e.formula) ∨ s.load = .ok none ∧ e.formula = []

theorem Mirrored.of_unsaved {d : Editor FormulaFile} (h : Mirrored path e s)
    (store : d.store = e.store) (formula : d.formula = e.formula) : Mirrored path d s where
  store := store.trans h.store
  path := h.path
  saveable := h.saveable
  loads := formula ▸ h.loads

theorem Mirrored.formula_of_read (h : Mirrored path e s) {g : Formula}
    (read : e.stored? = some g) : g = e.formula := by
  have given : s.load = .ok (some g) := load_of_stored? h.store read
  rcases h.loads with current | ⟨missing, _⟩
  · exact Option.some.inj (Except.ok.inj (given.symm.trans current))
  · cases given.symm.trans missing

theorem Mirrored.perform (h : Mirrored path e s) (x : Event) :
    ∃ t, Mirrored path (Editor.perform e x).2 t := by
  obtain ⟨formula, store⟩ := e.stores_perform x
  rw [h.store, Option.map_some] at store
  obtain ⟨samePath, saveable, loaded⟩ :=
    FormulaFile.load_afterSaves h.saveable (Edit.stages (e.edits x) e.formula)
  rcases e.edits_cases x with mutates | ⟨g, read, edits⟩
  · refine ⟨_, store, samePath.trans h.path, saveable, ?_⟩
    rw [formula, Edit.applyAll_eq_getLast?_stages e.formula mutates, loaded]
    cases (Edit.stages (e.edits x) e.formula).getLast? with
    | none => exact h.loads
    | some f => exact .inl rfl
  · -- nothing is saved, and what is read is what the file mirrors
    rw [edits] at formula store
    refine ⟨s, h.of_unsaved (store.trans h.store.symm) ?_⟩
    rw [formula]
    exact h.formula_of_read read

end Editor

namespace App

variable {c : Config} {env : Environment} {d : Disk} {path : String} {found : Option Formula}

theorem start_spec (persists : c.persists = true) (place : c.formulaPath? env = some path)
    (read : FormulaFile.load ⟨path, d⟩ = .ok found) (ids : IdSupply) (notices : List Notice) :
    let a := start c env d ids notices
    a.editor.store = some ⟨path, d⟩ ∧ a.editor.formula = found.getD [] ∧
      a.editor.session = .new ∧ a.editor.warnings = [] ∧ a.warning = "" := by
  have stores : store? c env d = (some ⟨path, d⟩, [.storedAt path]) := by
    simp [store?, persists, place]
  have loaded : Store.load (⟨path, d⟩ : FormulaFile) = .ok found := read
  have named : Store.path? (⟨path, d⟩ : FormulaFile) = some path := rfl
  cases found with
  | none =>
    simp [start, stores, load, new, Editor.load, Editor.new, loaded, named]
  | some f =>
    simp [start, stores, load, new, Session.new, Editor.load, Editor.new, loaded, named]

theorem mirrored_start (persists : c.persists = true) (place : c.formulaPath? env = some path)
    (read : FormulaFile.load ⟨path, d⟩ = .ok found)
    (saveable : FormulaFile.Saveable ⟨path, d⟩) (ids : IdSupply) (notices : List Notice) :
    Editor.Mirrored path (start c env d ids notices).editor ⟨path, d⟩ := by
  obtain ⟨store, formula, _⟩ := start_spec persists place read ids notices
  refine ⟨store, rfl, saveable, ?_⟩
  rw [formula, read]
  cases found with
  | none => exact .inr ⟨rfl, rfl⟩
  | some f => exact .inl rfl

theorem mirrored_run {a : App FormulaFile} {s : FormulaFile} (h : Editor.Mirrored path a.editor s)
    (xs : List Event) : ∃ t, Editor.Mirrored path (a.run xs).editor t := by
  refine run_keeps (P := fun e => ∃ t, Editor.Mirrored path e t) ?_ ?_ ⟨s, h⟩ xs
  · rintro e x ⟨t, mirrored⟩
    exact mirrored.perform x
  · rintro e notices ⟨t, mirrored⟩
    exact ⟨t, mirrored.of_unsaved rfl rfl⟩

/-- Whatever was done to the formula, starting again with the same settings gives it back tag by
tag, with nothing in the entry field, nothing selected or under rename, and no warning. On the way
every value is finite. -/
theorem restart_restores_formula (persists : c.persists = true)
    (place : c.formulaPath? env = some path)
    (readable : ∃ found, FormulaFile.load ⟨path, d⟩ = .ok found)
    (saveable : FormulaFile.Saveable ⟨path, d⟩)
    (ids newIds : IdSupply) (notices newNotices : List Notice) (xs : List Event) :
    let a := (start c env d ids notices).run xs
    let b := start c env (a.disk d) newIds newNotices
    (∀ t ∈ a.editor.formula, ∀ v, t.value? = some v → v.isFinite = true) ∧
      b.editor.formula = a.editor.formula ∧ b.editor.session = .new ∧
      b.editor.warnings = [] ∧ b.warning = "" := by
  intro a b
  obtain ⟨found, read⟩ := readable
  obtain ⟨t, store, samePath, _, loads⟩ :=
    mirrored_run (mirrored_start persists place read saveable ids notices) xs
  have left : (⟨path, a.disk d⟩ : FormulaFile) = t := by
    rw [disk, store, ← samePath]
    rfl
  have again : ∃ kept, FormulaFile.load ⟨path, a.disk d⟩ = .ok kept ∧
      kept.getD [] = a.editor.formula := by
    rw [left]
    rcases loads with current | ⟨missing, empty⟩
    · exact ⟨_, current, rfl⟩
    · exact ⟨_, missing, empty.symm⟩
  obtain ⟨kept, reread, same⟩ := again
  obtain ⟨_, formula, session, warnings, warning⟩ :=
    start_spec persists place reread newIds newNotices
  refine ⟨?_, formula.trans same, session, warnings, warning⟩
  intro tag _ v valued
  cases tag with
  | number value => exact Option.some.inj valued ▸ value.finite
  | var id name value category => exact Option.some.inj valued ▸ value.finite
  | operator op => cases valued

def filed : Config := { Config.default with formulaFile := some "/formula.json" }

theorem restart_after_pasted_text :
    let d : Disk := .withFolder []
    let a := (start filed ⟨none, none⟩ d ⟨1, 0⟩ []).run [.typeText "4+tax", .act .commit]
    a.editor.formula.length = 3 ∧
      (start filed ⟨none, none⟩ (a.disk d) ⟨2, 0⟩ []).editor.formula = a.editor.formula := by
  intro d a
  have empty : FormulaFile.load ⟨"/formula.json", d⟩ = .ok none := by decide +kernel
  have saved : (FormulaFile.save ⟨"/formula.json", d⟩ []).1 = .ok () := by decide +kernel
  have persists : filed.persists = true := rfl
  have place : Config.formulaPath? filed ⟨none, none⟩ = some "/formula.json" := rfl
  obtain ⟨_, restored, _⟩ := restart_restores_formula persists place
    ⟨none, empty⟩ (FormulaFile.saveable_of_saved saved) ⟨1, 0⟩ ⟨2, 0⟩ [] []
    [.typeText "4+tax", .act .commit]
  refine ⟨?_, restored⟩
  decide +kernel

end App

end TagFormula
