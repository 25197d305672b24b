import TagFormula.Editor.Session
import TagFormula.Formula

/-!
Edits of a formula, and where they leave its tags. Beside the formula goes a row of marks, one
for each tag: a tag gets a new mark when it comes in and takes it along when it moves. A tag that
is replaced in its place passes its mark on. A position followed through an edit keeps its mark,
and is lost only together with it.
-/
namespace TagFormula

inductive Edit where
  | append (t : Token)
  | remove (index : Nat)
  | replace (index : Nat) (t : Token)
  | clear
  | reload (f : Formula)
  deriving DecidableEq

structure Marks where
  row : List Nat
  /-- The mark of the next tag that comes in. -/
  next : Nat
  deriving DecidableEq, Repr

namespace Edit

def apply : Edit → Formula → Formula
  | append t, f => f ++ [t]
  | remove i, f => f.eraseIdx i
  | replace i t, f => f.set i t
  | clear, _ => []
  | reload g, _ => g

def applyAll (ds : List Edit) (f : Formula) : Formula := ds.foldl (fun f d => d.apply f) f

def follow : Edit → Option Nat → Option Nat
  | append _, position => position
  | remove i, position => shiftAfterRemoval i position
  | replace _ _, position => position
  | clear, _ => none
  | reload _, _ => none

def followAll (ds : List Edit) (position : Option Nat) : Option Nat :=
  ds.foldl (fun p d => d.follow p) position

def mark : Edit → Marks → Marks
  | append _, m => ⟨m.row ++ [m.next], m.next + 1⟩
  | remove i, m => ⟨m.row.eraseIdx i, m.next⟩
  | replace _ _, m => m
  | clear, m => ⟨[], m.next⟩
  | reload g, m => ⟨List.range' m.next g.length, m.next + g.length⟩

def markAll (ds : List Edit) (m : Marks) : Marks := ds.foldl (fun m d => d.mark m) m

@[simp] theorem follow_none (d : Edit) : d.follow none = none := by cases d <;> rfl

theorem followAll_cons (d : Edit) (ds : List Edit) (position : Option Nat) :
    followAll (d :: ds) position = followAll ds (d.follow position) := rfl

@[simp] theorem followAll_none (ds : List Edit) : followAll ds none = none := by
  induction ds with
  | nil => rfl
  | cons d ds ih => rw [followAll_cons, follow_none, ih]

theorem applyAll_appends (ts : List Token) (f : Formula) :
    applyAll (ts.map append) f = f ++ ts := by
  induction ts generalizing f with
  | nil => simp [applyAll]
  | cons t ts ih => simpa [applyAll, apply] using ih (f ++ [t])

theorem followAll_appends (ts : List Token) (position : Option Nat) :
    followAll (ts.map append) position = position := by
  induction ts with
  | nil => rfl
  | cons t ts ih => exact ih

theorem followAll_cons_eq_some {d : Edit} {ds : List Edit} {i k : Nat}
    (h : followAll (d :: ds) (some i) = some k) :
    ∃ j, d.follow (some i) = some j ∧ followAll ds (some j) = some k := by
  rw [followAll_cons] at h
  cases followed : d.follow (some i) with
  | none =>
    rw [followed, followAll_none] at h
    cases h
  | some j => exact ⟨j, rfl, followed ▸ h⟩

/-- One tag becomes another in its place. -/
def InPlace : Edit → Prop
  | replace _ _ => True
  | _ => False

theorem length_applyAll_of_inPlace {ds : List Edit} (f : Formula) (h : ∀ d ∈ ds, d.InPlace) :
    (applyAll ds f).length = f.length := by
  induction ds generalizing f with
  | nil => rfl
  | cons d ds ih =>
    have rest := ih (d.apply f) (fun c member => h c (List.mem_cons_of_mem d member))
    have first := h d List.mem_cons_self
    cases d with
    | replace i t => exact rest.trans List.length_set
    | _ => exact first.elim

theorem followAll_of_inPlace {ds : List Edit} (position : Option Nat)
    (h : ∀ d ∈ ds, d.InPlace) : followAll ds position = position := by
  induction ds with
  | nil => rfl
  | cons d ds ih =>
    have first := h d List.mem_cons_self
    cases d with
    | replace i t => exact ih (fun c member => h c (List.mem_cons_of_mem _ member))
    | _ => exact first.elim

theorem markAll_of_inPlace {ds : List Edit} (m : Marks) (h : ∀ d ∈ ds, d.InPlace) :
    markAll ds m = m := by
  induction ds with
  | nil => rfl
  | cons d ds ih =>
    have first := h d List.mem_cons_self
    cases d with
    | replace i t => exact ih (fun c member => h c (List.mem_cons_of_mem _ member))
    | _ => exact first.elim

theorem follow_lt {d : Edit} {f : Formula} {i k : Nat} (inside : i < f.length)
    (h : d.follow (some i) = some k) : k < (d.apply f).length := by
  cases d with
  | append t =>
    cases h
    simp only [apply, List.length_append, List.length_singleton]
    omega
  | replace j t =>
    cases h
    simpa [apply] using inside
  | clear => cases h
  | reload g => cases h
  | remove r =>
    have moved := Option.some.inj (shiftAfterRemoval_eq_some_iff.mp h)
    simp only [apply, List.length_eraseIdx]
    split at moved <;> split <;> omega

theorem followAll_lt {ds : List Edit} {f : Formula} {position : Option Nat} {k : Nat}
    (inside : ∀ i, position = some i → i < f.length) (h : followAll ds position = some k) :
    k < (applyAll ds f).length := by
  induction ds generalizing f position with
  | nil => exact inside k h
  | cons d ds ih =>
    refine ih ?_ h
    intro j followed
    cases position with
    | none => simp only [follow_none, reduceCtorEq] at followed
    | some i => exact follow_lt (inside i rfl) followed

/-! ## Tags and marks on the way -/

theorem getElem?_eraseIdx_of_shift {α : Type} {row : List α} {r k : Nat} {i : Nat}
    (h : shiftAfterRemoval r (some i) = some k) : (row.eraseIdx r)[k]? = row[i]? := by
  have moved := Option.some.inj (shiftAfterRemoval_eq_some_iff.mp h)
  rw [List.getElem?_eraseIdx, moved]
  split <;> split <;> first | rfl | omega

def Keeps (ds : List Edit) (f : Formula) (k : Nat) : Prop :=
  ∃ j, followAll ds (some k) = some j ∧ (applyAll ds f)[j]? = f[k]?

theorem keeps_nil (f : Formula) (k : Nat) : Keeps [] f k := ⟨k, rfl, rfl⟩

theorem keeps_appends (ts : List Token) {f : Formula} {k : Nat} (inside : k < f.length) :
    Keeps (ts.map append) f k := by
  refine ⟨k, followAll_appends ts _, ?_⟩
  rw [applyAll_appends]
  exact List.getElem?_append_left inside

theorem keeps_remove (f : Formula) {i k : Nat} (other : k ≠ i) : Keeps [remove i] f k := by
  cases followed : shiftAfterRemoval i (some k) with
  | none =>
    simp only [shiftAfterRemoval, if_neg other] at followed
    split at followed <;> cases followed
  | some j => exact ⟨j, followed, getElem?_eraseIdx_of_shift followed⟩

theorem keeps_replace (t : Token) (f : Formula) {i k : Nat} (other : k ≠ i) :
    Keeps [replace i t] f k :=
  ⟨k, rfl, List.getElem?_set_ne other.symm⟩

end Edit

/-- Each tag has a mark of its own, and the next one is new. -/
structure Marks.Proper (m : Marks) (f : Formula) : Prop where
  length : m.row.length = f.length
  nodup : m.row.Nodup
  used : ∀ a ∈ m.row, a < m.next

namespace Edit

theorem proper_mark {m : Marks} {f : Formula} (d : Edit) (h : m.Proper f) :
    (d.mark m).Proper (d.apply f) := by
  obtain ⟨length, nodup, used⟩ := h
  cases d with
  | append t =>
    refine ⟨by simp [mark, apply, length], ?_, ?_⟩
    · refine List.nodup_append.mpr ⟨nodup, by simp, ?_⟩
      intro a old b new
      have before := used a old
      have same := List.mem_singleton.mp new
      omega
    · intro a member
      rcases List.mem_append.mp member with old | new
      · exact Nat.lt_succ_of_lt (used a old)
      · have same := List.mem_singleton.mp new
        simp only [mark]
        omega
  | remove r =>
    refine ⟨by simp [mark, apply, List.length_eraseIdx, length], nodup.eraseIdx r, ?_⟩
    exact fun a member => used a (List.mem_of_mem_eraseIdx member)
  | replace i t => exact ⟨by simpa [mark, apply] using length, nodup, used⟩
  | clear => exact ⟨rfl, List.nodup_nil, fun a member => absurd member (List.not_mem_nil)⟩
  | reload g =>
    refine ⟨List.length_range', List.nodup_range', ?_⟩
    intro a member
    exact (List.mem_range'_1.mp member).2

theorem proper_markAll {m : Marks} {f : Formula} (ds : List Edit) (h : m.Proper f) :
    (markAll ds m).Proper (applyAll ds f) := by
  induction ds generalizing m f with
  | nil => exact h
  | cons d ds ih => exact ih (proper_mark d h)

theorem mark_follow {m : Marks} {f : Formula} {d : Edit} {i k : Nat} (h : m.Proper f)
    (inside : i < f.length) (followed : d.follow (some i) = some k) :
    (d.mark m).row[k]? = m.row[i]? := by
  cases d with
  | append t =>
    cases followed
    exact List.getElem?_append_left (h.length ▸ inside)
  | remove r => exact getElem?_eraseIdx_of_shift followed
  | replace j t =>
    cases followed
    rfl
  | clear => cases followed
  | reload g => cases followed

theorem markAll_follow {m : Marks} {f : Formula} {ds : List Edit} {i k : Nat} (h : m.Proper f)
    (inside : i < f.length) (followed : followAll ds (some i) = some k) :
    (markAll ds m).row[k]? = m.row[i]? := by
  induction ds generalizing m f i with
  | nil =>
    cases followed
    rfl
  | cons d ds ih =>
    obtain ⟨j, first, rest⟩ := followAll_cons_eq_some followed
    exact (ih (proper_mark d h) (follow_lt inside first) rest).trans (mark_follow h inside first)

theorem next_le_mark (d : Edit) (m : Marks) : m.next ≤ (d.mark m).next := by
  cases d <;> simp [mark]

theorem lost_mark {m : Marks} {a : Nat} (d : Edit) (used : a < m.next) (lost : a ∉ m.row) :
    a ∉ (d.mark m).row := by
  cases d with
  | append t =>
    intro member
    rcases List.mem_append.mp member with old | new
    · exact lost old
    · have same := List.mem_singleton.mp new
      omega
  | remove r => exact fun member => lost (List.mem_of_mem_eraseIdx member)
  | replace i t => exact lost
  | clear => exact List.not_mem_nil
  | reload g =>
    intro member
    have new := (List.mem_range'_1.mp member).1
    omega

theorem lost_markAll {m : Marks} {a : Nat} (ds : List Edit) (used : a < m.next)
    (lost : a ∉ m.row) : a ∉ (markAll ds m).row := by
  induction ds generalizing m with
  | nil => exact lost
  | cons d ds ih => exact ih (Nat.lt_of_lt_of_le used (next_le_mark d m)) (lost_mark d used lost)

end Edit

end TagFormula
