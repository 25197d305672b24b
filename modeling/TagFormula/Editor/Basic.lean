import TagFormula.Editor.Session
import TagFormula.Lookup.Basic
import TagFormula.Notice

/-!
The editor of a formula: the tags, the session of whoever edits them, the suggestions and the
store.
-/
namespace TagFormula

structure Editor (σ : Type) where
  formula : Formula
  session : Session
  lookup : Option Lookup
  store : Option σ
  /-- Failed saves nobody has been told of, oldest first. -/
  warnings : List StorageFault
  ids : IdSupply
  /-- What has been noted for the log, newest first. -/
  notices : List Notice

namespace Editor

variable {σ : Type}

def new (ids : IdSupply) (lookup : Option Lookup) (store : Option σ) : Editor σ where
  formula := []
  session := .new
  lookup := lookup
  store := store
  warnings := []
  ids := ids
  notices := []

def note (e : Editor σ) (n : Notice) : Editor σ := { e with notices := n :: e.notices }

@[simp] theorem formula_note (e : Editor σ) (n : Notice) : (e.note n).formula = e.formula := rfl

@[simp] theorem session_note (e : Editor σ) (n : Notice) : (e.note n).session = e.session := rfl

@[simp] theorem lookup_note (e : Editor σ) (n : Notice) : (e.note n).lookup = e.lookup := rfl

@[simp] theorem store_note (e : Editor σ) (n : Notice) : (e.note n).store = e.store := rfl

@[simp] theorem warnings_note (e : Editor σ) (n : Notice) : (e.note n).warnings = e.warnings := rfl

@[simp] theorem ids_note (e : Editor σ) (n : Notice) : (e.note n).ids = e.ids := rfl

def outOfRange (e : Editor σ) (index : Nat) : Fault := .index index e.formula.length

/-! ## Suggestions -/

def rawCandidates (e : Editor σ) : List Suggestion :=
  match e.lookup with
  | some l => l.candidates
  | none => []

def candidates (e : Editor σ) : List Suggestion :=
  Suggestion.filter e.session.entry e.rawCandidates

theorem rawCandidates_of_alone {e : Editor σ} (alone : e.lookup = none) : e.rawCandidates = [] := by
  rw [rawCandidates, alone]

theorem candidates_of_bare {e : Editor σ} (bare : e.rawCandidates = []) : e.candidates = [] := by
  rw [candidates, bare]
  rfl

def candidatesText (e : Editor σ) : String :=
  match e.lookup with
  | some l => l.candidatesText
  | none => ""

def isWaiting (e : Editor σ) : Bool :=
  match e.lookup with
  | some l => l.isWaiting
  | none => false

def withLookup (e : Editor σ) (f : Lookup → Harvest × Lookup) : Harvest × Editor σ :=
  match e.lookup with
  | none => (.nothing, e)
  | some l => ((f l).1, { e with lookup := some (f l).2 })

def harvest (e : Editor σ) : Harvest × Editor σ := e.withLookup Lookup.harvest

def await (e : Editor σ) : Harvest × Editor σ := e.withLookup Lookup.await

def onLookup (e : Editor σ) (f : Lookup → Lookup) : Editor σ :=
  { e with lookup := e.lookup.map f }

/-! ## New tags -/

def freshVar (e : Editor σ) (name : String) : Token × Editor σ :=
  (.var e.ids.id name .zero none, { e with ids := e.ids.advance })

def insertion (e : Editor σ) (s : Suggestion) : Token × Editor σ :=
  ((s.insert e.ids).1, { e with ids := (s.insert e.ids).2 })

end Editor

end TagFormula
