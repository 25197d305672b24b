/-!
The session of whoever edits a formula. The positions kept in it move with the tags they name.
-/
namespace TagFormula

/-- What is never stored. -/
structure Session where
  entry : String
  /-- The tag chosen for replacement. -/
  selection : Option Nat
  renameAt : Option Nat
  renameText : String
  deriving DecidableEq, Repr

/-- A position after the tag at `removed` is gone: lost if it named that tag, one less if it
came after it. -/
def shiftAfterRemoval (removed : Nat) : Option Nat → Option Nat
  | none => none
  | some i => if i = removed then none else if removed < i then some (i - 1) else some i

@[simp] theorem shiftAfterRemoval_none (r : Nat) : shiftAfterRemoval r none = none := rfl

@[simp] theorem shiftAfterRemoval_self (r : Nat) : shiftAfterRemoval r (some r) = none := by
  simp [shiftAfterRemoval]

theorem shiftAfterRemoval_eq_some_iff {r k : Nat} {i : Option Nat} :
    shiftAfterRemoval r i = some k ↔ i = some (if r ≤ k then k + 1 else k) := by
  cases i with
  | none => simp
  | some i =>
    simp only [shiftAfterRemoval, Option.some.injEq]
    split
    · split <;> simp <;> omega
    · split <;> split <;> simp <;> omega

namespace Session

def new : Session := ⟨"", none, none, ""⟩

def afterRemoval (s : Session) (index : Nat) : Session :=
  let renameAt := shiftAfterRemoval index s.renameAt
  { s with
    selection := shiftAfterRemoval index s.selection
    renameAt := renameAt
    renameText := if s.renameAt.isSome && renameAt.isNone then "" else s.renameText }

def withoutRename (s : Session) : Session := { s with renameAt := none, renameText := "" }

end Session

end TagFormula
