import TagFormula.Fault
import TagFormula.Token

/-!
A formula is its row of tags. Positions name tags only for the moment: what stands after a
removed tag moves up by one.
-/
namespace TagFormula

abbrev Formula := List Token

namespace Formula

def at? (f : Formula) (i : Nat) : Except Fault Token :=
  match f[i]? with
  | some t => .ok t
  | none => .error (.index i f.length)

def removeAt (f : Formula) (i : Nat) : Except Fault (Token × Formula) :=
  (at? f i).map fun t => (t, f.eraseIdx i)

def replaceAt (f : Formula) (i : Nat) (t : Token) : Except Fault (Token × Formula) :=
  (at? f i).map fun old => (old, f.set i t)

/-! A position is either that of a tag or refused, whatever is to be done there. -/

theorem at?_eq_ok_iff {f : Formula} {i : Nat} {t : Token} : at? f i = .ok t ↔ f[i]? = some t := by
  unfold at?
  split <;> simp_all

theorem at?_eq_error_iff {f : Formula} {i : Nat} {e : Fault} :
    at? f i = .error e ↔ f.length ≤ i ∧ e = .index i f.length := by
  unfold at?
  split
  · next found =>
    have inside := (List.getElem?_eq_some_iff.mp found).1
    simp
    omega
  · next missing =>
    have outside := List.getElem?_eq_none_iff.mp missing
    simp [outside, eq_comm]

theorem removeAt_eq_ok_iff {f g : Formula} {i : Nat} {t : Token} :
    removeAt f i = .ok (t, g) ↔ f[i]? = some t ∧ g = f.eraseIdx i := by
  rw [← at?_eq_ok_iff, removeAt]
  cases at? f i with
  | ok u => simp [Except.map, @eq_comm _ _ g]
  | error e => simp [Except.map]

theorem removeAt_eq_error_iff {f : Formula} {i : Nat} {e : Fault} :
    removeAt f i = .error e ↔ f.length ≤ i ∧ e = .index i f.length := by
  rw [← at?_eq_error_iff, removeAt]
  cases at? f i <;> simp [Except.map]

theorem replaceAt_eq_ok_iff {f g : Formula} {i : Nat} {t old : Token} :
    replaceAt f i t = .ok (old, g) ↔ f[i]? = some old ∧ g = f.set i t := by
  rw [← at?_eq_ok_iff, replaceAt]
  cases at? f i with
  | ok u => simp [Except.map, @eq_comm _ _ g]
  | error e => simp [Except.map]

theorem replaceAt_eq_error_iff {f : Formula} {i : Nat} {t : Token} {e : Fault} :
    replaceAt f i t = .error e ↔ f.length ≤ i ∧ e = .index i f.length := by
  rw [← at?_eq_error_iff, replaceAt]
  cases at? f i <;> simp [Except.map]

end Formula

end TagFormula
