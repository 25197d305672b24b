import TagFormula.Proofs.EditorSteps

/-!
Who is who in a formula under edition. The tags of a running editor carry marks: a tag that comes
in gets a new one, a tag that is replaced in its place passes it on. The selection and the rename
are positions, but they follow marks: what either names is the tag it was set on, wherever that
has moved to, and it names nothing as soon as that tag is gone.
-/
namespace TagFormula

open Editor (Event)

variable {σ : Type}

inductive Pointer where
  | selection
  | rename
  deriving DecidableEq, Repr

namespace Pointer

def of : Pointer → Session → Option Nat
  | selection, s => s.selection
  | rename, s => s.renameAt

def setter : Pointer → Nat → Action
  | selection => .select
  | rename => .startRename

def sets (e : Editor σ) (x : Event) : Pointer → Option Nat → Option Nat
  | selection => e.selects x
  | rename => e.renames x

theorem lt_of_inRange {e : Editor σ} (h : e.InRange) (p : Pointer) {k : Nat}
    (named : p.of e.session = some k) : k < e.formula.length := by
  cases p with
  | selection => exact h.selection k named
  | rename => exact h.renameAt k named

theorem of_perform [Store σ] {e : Editor σ} (h : e.InRange) (x : Event) (p : Pointer) :
    p.of (e.perform x).2.session =
      p.sets e x (Edit.followAll (e.edits x) (p.of e.session)) := by
  cases p with
  | selection => exact (Editor.does_perform h x).selection
  | rename => exact (Editor.does_perform h x).renameAt

theorem sets_eq_some {e : Editor σ} {x : Event} {p : Pointer} {position : Option Nat} {k : Nat}
    (h : p.sets e x position = some k) :
    position = some k ∨ x = .act (p.setter k) ∧ k < e.formula.length := by
  cases p with
  | selection => exact Editor.selects_eq_some h
  | rename => exact Editor.renames_eq_some h

theorem inPlace_setter [Store σ] (e : Editor σ) (p : Pointer) (i : Nat) :
    ∀ d ∈ e.edits (.act (p.setter i)), d.InPlace := by
  cases p with
  | selection => exact e.inPlace_select i
  | rename => exact e.inPlace_startRename i

end Pointer

structure Marked (σ : Type) where
  editor : Editor σ
  marks : Marks

namespace Marked

def new (ids : IdSupply) (lookup : Option Lookup) (store : Option σ) : Marked σ :=
  ⟨.new ids lookup store, ⟨[], 0⟩⟩

def step [Store σ] (s : Marked σ) (x : Event) : Marked σ :=
  ⟨(s.editor.perform x).2, Edit.markAll (s.editor.edits x) s.marks⟩

def run [Store σ] (s : Marked σ) : List Event → Marked σ
  | [] => s
  | x :: rest => (s.step x).run rest

theorem editor_run [Store σ] (s : Marked σ) (xs : List Event) :
    (s.run xs).editor = (s.editor.run xs).2 := by
  induction xs generalizing s with
  | nil => rfl
  | cons x xs ih => exact ih (s.step x)

structure Sound (s : Marked σ) : Prop where
  proper : s.marks.Proper s.editor.formula
  inRange : s.editor.InRange

theorem sound_new (ids : IdSupply) (lookup : Option Lookup) (store : Option σ) :
    (new ids lookup store).Sound := by
  refine ⟨⟨rfl, List.nodup_nil, ?_⟩, Editor.inRange_new ids lookup store⟩
  intro a member
  cases member

theorem formula_step [Store σ] {s : Marked σ} (h : s.Sound) (x : Event) :
    (s.step x).editor.formula = Edit.applyAll (s.editor.edits x) s.editor.formula :=
  (Editor.does_perform h.inRange x).formula

theorem sound_step [Store σ] {s : Marked σ} (h : s.Sound) (x : Event) : (s.step x).Sound := by
  refine ⟨?_, Editor.inRange_perform h.inRange x⟩
  rw [formula_step h x]
  exact Edit.proper_markAll _ h.proper

theorem sound_run [Store σ] {s : Marked σ} (h : s.Sound) (xs : List Event) :
    (s.run xs).Sound := by
  induction xs generalizing s with
  | nil => exact h
  | cons x xs ih => exact ih (sound_step h x)

/-! ## What the session names -/

def Names (p : Pointer) (s : Marked σ) (m : Nat) : Prop :=
  ∃ k, p.of s.editor.session = some k ∧ s.marks.row[k]? = some m

theorem Sound.names {s : Marked σ} (h : s.Sound) {p : Pointer} {k : Nat}
    (named : p.of s.editor.session = some k) : ∃ m, s.marks.row[k]? = some m := by
  have inside := Pointer.lt_of_inRange h.inRange p named
  rw [← h.proper.length] at inside
  exact ⟨_, List.getElem?_eq_getElem inside⟩

theorem names_step [Store σ] {s : Marked σ} (h : s.Sound) {x : Event} {p : Pointer} {m : Nat}
    (named : Names p (s.step x) m) :
    Names p s m ∨ ∃ i, x = .act (p.setter i) ∧ s.marks.row[i]? = some m := by
  obtain ⟨k, position, mark⟩ := named
  have moved := (p.of_perform h.inRange x).symm.trans position
  rcases Pointer.sets_eq_some moved with followed | ⟨rfl, _⟩
  · left
    cases before : p.of s.editor.session with
    | none =>
      rw [before, Edit.followAll_none] at followed
      cases followed
    | some i =>
      have inside := Pointer.lt_of_inRange h.inRange p before
      rw [before] at followed
      exact ⟨i, before, (Edit.markAll_follow h.proper inside followed).symm.trans mark⟩
  · right
    have still := Edit.markAll_of_inPlace s.marks (p.inPlace_setter s.editor k)
    exact ⟨k, rfl, still ▸ mark⟩

/-- A pointer that names something has named it from the start, or since an event of the run
set it. -/
theorem names_run [Store σ] {s : Marked σ} (h : s.Sound) (xs : List Event) {p : Pointer}
    {m : Nat} (named : Names p (s.run xs) m) :
    (∀ ws, ws <+: xs → Names p (s.run ws) m) ∨
      ∃ ys i zs, xs = ys ++ .act (p.setter i) :: zs ∧ (s.run ys).marks.row[i]? = some m ∧
        ∀ ws, ws <+: zs → Names p (s.run (ys ++ .act (p.setter i) :: ws)) m := by
  -- from the first event on: what held all the way after it either held before it or began there
  induction xs generalizing s with
  | nil =>
    left
    intro ws start
    rw [List.prefix_nil.mp start]
    exact named
  | cons x xs ih =>
    rcases ih (sound_step h x) named with always | ⟨ys, i, zs, split, mark, since⟩
    · rcases names_step h (always [] List.nil_prefix) with before | ⟨i, rfl, mark⟩
      · left
        intro ws start
        cases ws with
        | nil => exact before
        | cons w ws =>
          obtain ⟨rfl, rest⟩ := List.cons_prefix_cons.mp start
          exact always ws rest
      · exact .inr ⟨[], i, xs, rfl, mark, always⟩
    · exact .inr ⟨x :: ys, i, zs, congrArg (x :: ·) split, mark, since⟩

theorem none_of_mark_lost [Store σ] {s : Marked σ} (h : s.Sound) {x : Event} {p : Pointer}
    {k m : Nat} (named : p.of s.editor.session = some k) (mark : s.marks.row[k]? = some m)
    (lost : m ∉ (s.step x).marks.row) : p.of (s.step x).editor.session = none := by
  have inside := Pointer.lt_of_inRange h.inRange p named
  have gone : Edit.followAll (s.editor.edits x) (some k) = none := by
    cases followed : Edit.followAll (s.editor.edits x) (some k) with
    | none => rfl
    | some j =>
      have kept := (Edit.markAll_follow h.proper inside followed).trans mark
      exact absurd (List.mem_of_getElem? kept) lost
  cases after : p.of (s.step x).editor.session with
  | none => rfl
  | some j =>
    have moved := (p.of_perform h.inRange x).symm.trans after
    rw [named] at moved
    rcases Pointer.sets_eq_some moved with followed | ⟨rfl, _⟩
    · cases gone.symm.trans followed
    -- an action that sets a pointer removes nothing
    · rw [Edit.followAll_of_inPlace _ (p.inPlace_setter s.editor j)] at gone
      cases gone

end Marked

/-! ## What stays -/

namespace Editor

/-- The tags an event is there to remove or to replace. -/
def targets [Store σ] (e : Editor σ) : Event → Nat → Prop
  | .act (.replaceWith i _), k | .act (.remove i), k | .removeAt i, k | .replaceAt i _, k => k = i
  | .act .erase, k => e.session.entry = "" ∧ k + 1 = e.formula.length
  | .act .clear, _ => True
  | .load, _ => e.stored? ≠ none
  | _, _ => False

/-- The tag whose rename an event brings to an end, so that it gets its new name. -/
def finishes (e : Editor σ) : Event → Nat → Prop
  | .act .finishRename, k | .act .clickOutside, k => e.session.renameAt = some k
  | .act (.select i), k => i < e.formula.length ∧ e.session.renameAt = some k ∧ k ≠ i
  | .act (.startRename i), k =>
    (∃ t, e.formula[i]? = some t ∧ t.isOperator = false) ∧
      e.session.renameAt = some k ∧ k ≠ i
  | _, _ => False

theorem keeps_renameEdits {e : Editor σ} {k : Nat} (other : e.session.renameAt ≠ some k) :
    Edit.Keeps e.renameEdits e.formula k := by
  rcases e.renameEdits_cases with none | ⟨i, t, underway, one⟩
  · rw [none]
    exact Edit.keeps_nil _ k
  · rw [one]
    refine Edit.keeps_replace t _ ?_
    intro same
    exact other (same ▸ underway)

theorem keeps_otherRenameEdits {e : Editor σ} {index k : Nat}
    (other : ¬ (e.session.renameAt = some k ∧ k ≠ index)) :
    Edit.Keeps (e.otherRenameEdits index) e.formula k := by
  rcases e.otherRenameEdits_cases index with none | ⟨i, t, underway, apart, one⟩
  · rw [none]
    exact Edit.keeps_nil _ k
  · rw [one]
    refine Edit.keeps_replace t _ ?_
    intro same
    exact other (same ▸ ⟨underway, apart⟩)

theorem keeps_edits [Store σ] {e : Editor σ} {x : Event} {k : Nat} (inside : k < e.formula.length)
    (untargeted : ¬ e.targets x k) (unfinished : ¬ e.finishes x k) :
    Edit.Keeps (e.edits x) e.formula k := by
  cases x with
  | act a =>
    cases a with
    | erase =>
      simp only [edits, actionEdits]
      split
      · next last =>
        refine Edit.keeps_remove _ fun same => untargeted ?_
        simp only [Bool.and_eq_true, String.isEmpty_iff] at last
        exact ⟨last.1, by omega⟩
      · exact Edit.keeps_nil _ k
    | select i =>
      simp only [edits, actionEdits]
      split
      · next found =>
        exact keeps_otherRenameEdits fun ends => unfinished ⟨found, ends⟩
      · exact Edit.keeps_nil _ k
    | replaceWith i s =>
      simp only [edits, actionEdits]
      split
      · exact Edit.keeps_replace _ _ untargeted
      · exact Edit.keeps_nil _ k
    | remove i =>
      simp only [edits, actionEdits]
      split
      · exact Edit.keeps_remove _ untargeted
      · exact Edit.keeps_nil _ k
    | startRename i =>
      simp only [edits, actionEdits]
      split
      · next t found =>
        split
        · exact Edit.keeps_nil _ k
        · next named =>
          exact keeps_otherRenameEdits fun ends =>
            unfinished ⟨⟨t, found, Bool.eq_false_iff.mpr named⟩, ends⟩
      · exact Edit.keeps_nil _ k
    | finishRename => exact keeps_renameEdits unfinished
    | clickOutside => exact keeps_renameEdits unfinished
    | clear => exact (untargeted trivial).elim
    | _ => exact Edit.keeps_appends _ inside
  | append t => exact Edit.keeps_appends [t] inside
  | removeAt i =>
    simp only [edits]
    split
    · exact Edit.keeps_remove _ untargeted
    · exact Edit.keeps_nil _ k
  | replaceAt i t =>
    simp only [edits]
    split
    · exact Edit.keeps_replace _ _ untargeted
    · exact Edit.keeps_nil _ k
  | load =>
    have nothing : e.stored? = none := Decidable.not_not.mp untargeted
    simp only [edits, nothing]
    exact Edit.keeps_nil _ k
  | _ => exact Edit.keeps_nil _ k

theorem finishes_cases {e : Editor σ} {x : Event} {k : Nat} (h : e.finishes x k) :
    e.session.renameAt = some k ∧
      (x = .act .finishRename ∨ x = .act .clickOutside ∨
        ∃ i, x = .act (.select i) ∨ x = .act (.startRename i)) := by
  cases x with
  | act a =>
    cases a with
    | select i => exact ⟨h.2.1, .inr (.inr ⟨i, .inl rfl⟩)⟩
    | startRename i => exact ⟨h.2.1, .inr (.inr ⟨i, .inr rfl⟩)⟩
    | finishRename => exact ⟨h, .inl rfl⟩
    | clickOutside => exact ⟨h, .inr (.inl rfl)⟩
    | _ => exact h.elim
  | _ => exact h.elim

theorem untargeted_of_finishes [Store σ] {e : Editor σ} {x : Event} {k : Nat}
    (h : e.finishes x k) (j : Nat) : ¬ e.targets x j := by
  obtain ⟨_, rfl | rfl | ⟨i, rfl | rfl⟩⟩ := finishes_cases h <;> exact id

theorem inPlace_of_finishes [Store σ] {e : Editor σ} {x : Event} {k : Nat}
    (h : e.finishes x k) : ∀ d ∈ e.edits x, d.InPlace := by
  obtain ⟨_, rfl | rfl | ⟨i, rfl | rfl⟩⟩ := finishes_cases h
  · exact e.inPlace_renameEdits
  · exact e.inPlace_renameEdits
  · exact e.inPlace_select i
  · exact e.inPlace_startRename i

theorem others_of_finishes [Store σ] {e : Editor σ} {x : Event} {k j : Nat}
    (h : e.finishes x k) (other : j ≠ k) :
    (Edit.applyAll (e.edits x) e.formula)[j]? = e.formula[j]? := by
  have inPlace := inPlace_of_finishes h
  rcases Nat.lt_or_ge j e.formula.length with inside | outside
  · have unfinished : ¬ e.finishes x j := by
      intro ends
      have same := (finishes_cases ends).1.symm.trans (finishes_cases h).1
      exact other (Option.some.inj same)
    obtain ⟨i, followed, kept⟩ := keeps_edits inside (untargeted_of_finishes h j) unfinished
    rw [Edit.followAll_of_inPlace _ inPlace] at followed
    cases followed
    exact kept
  · have still := Edit.length_applyAll_of_inPlace e.formula inPlace
    rw [List.getElem?_eq_none outside, List.getElem?_eq_none (still ▸ outside)]

end Editor

namespace Marked

theorem frame_step [Store σ] {s : Marked σ} (h : s.Sound) {x : Event} {k m : Nat} {t : Token}
    (mark : s.marks.row[k]? = some m) (found : s.editor.formula[k]? = some t)
    (untargeted : ¬ s.editor.targets x k) (unfinished : ¬ s.editor.finishes x k) :
    ∃ j : Nat, (s.step x).marks.row[j]? = some m ∧ (s.step x).editor.formula[j]? = some t := by
  have inside := (List.getElem?_eq_some_iff.mp found).1
  obtain ⟨j, followed, kept⟩ := Editor.keeps_edits inside untargeted unfinished
  refine ⟨j, (Edit.markAll_follow h.proper inside followed).trans mark, ?_⟩
  rw [formula_step h x]
  exact kept.trans found

theorem finishes_step [Store σ] {s : Marked σ} (h : s.Sound) {x : Event} {k : Nat}
    (ends : s.editor.finishes x k) :
    s.editor.session.renameAt = some k ∧ (s.step x).marks = s.marks ∧
      ∀ j, j ≠ k → (s.step x).editor.formula[j]? = s.editor.formula[j]? := by
  refine ⟨(Editor.finishes_cases ends).1, ?_, ?_⟩
  · exact Edit.markAll_of_inPlace s.marks (Editor.inPlace_of_finishes ends)
  · intro j other
    rw [formula_step h x]
    exact Editor.others_of_finishes ends other

theorem not_names_new (ids : IdSupply) (lookup : Option Lookup) (store : Option σ) (p : Pointer)
    (m : Nat) : ¬ Names p (new ids lookup store) m := by
  rintro ⟨k, _, mark⟩
  cases mark

/-- The selection and the rename name the tag they were set on, and that tag only; what no event
targets and no rename ends on stays as it is. -/
theorem selection_and_rename_follow_tags [Store σ] (ids : IdSupply) (lookup : Option Lookup)
    (store : Option σ) (xs : List Event) :
    let start := new ids lookup store
    let s := start.run xs
    s.editor = ((Editor.new ids lookup store).run xs).2 ∧
    s.marks.Proper s.editor.formula ∧
    (∀ x, (s.step x).editor.formula =
      Edit.applyAll (s.editor.edits x) s.editor.formula) ∧
    (∀ x m, m < s.marks.next → m ∉ s.marks.row → m ∉ (s.step x).marks.row) ∧
    (∀ p k, Pointer.of p s.editor.session = some k → k < s.editor.formula.length ∧
      ∃ ys i zs m, xs = ys ++ .act (p.setter i) :: zs ∧
        (start.run ys).marks.row[i]? = some m ∧ s.marks.row[k]? = some m ∧
        ∀ ws, ws <+: zs → Names p (start.run (ys ++ .act (p.setter i) :: ws)) m) ∧
    (∀ p x k m, Pointer.of p s.editor.session = some k → s.marks.row[k]? = some m →
      m ∉ (s.step x).marks.row → p.of (s.step x).editor.session = none) ∧
    (∀ x k m t, s.marks.row[k]? = some m → s.editor.formula[k]? = some t →
      ¬ s.editor.targets x k → ¬ s.editor.finishes x k →
      ∃ j : Nat, (s.step x).marks.row[j]? = some m ∧ (s.step x).editor.formula[j]? = some t) ∧
    (∀ x k, s.editor.finishes x k →
      s.editor.session.renameAt = some k ∧ (s.step x).marks = s.marks ∧
        ∀ j, j ≠ k → (s.step x).editor.formula[j]? = s.editor.formula[j]?) := by
  intro start s
  have sound : s.Sound := sound_run (sound_new ids lookup store) xs
  refine ⟨editor_run start xs, sound.proper, formula_step sound, ?_, ?_, ?_, ?_, ?_⟩
  · intro x m used lost
    exact Edit.lost_markAll (s.editor.edits x) used lost
  · intro p k named
    obtain ⟨m, mark⟩ := sound.names named
    refine ⟨Pointer.lt_of_inRange sound.inRange p named, ?_⟩
    rcases names_run (sound_new ids lookup store) xs ⟨k, named, mark⟩ with
      always | ⟨ys, i, zs, split, origin, since⟩
    · exact (not_names_new ids lookup store p m (always [] List.nil_prefix)).elim
    · exact ⟨ys, i, zs, m, split, origin, mark, since⟩
  · intro p x k m named mark lost
    exact none_of_mark_lost sound named mark lost
  · intro x k m t mark found untargeted unfinished
    exact frame_step sound mark found untargeted unfinished
  · intro x k ends
    exact finishes_step sound ends

end Marked

end TagFormula
