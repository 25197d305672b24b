import Mathlib.Data.List.Induction
import TagFormula.Proofs.EditorSteps

/-!
Properties that some events begin and others end. If an event leaves them alone otherwise, they
hold after a run exactly since they last began.
-/
namespace TagFormula.Editor

variable {σ : Type}

variable [Store σ] {start : Editor σ} {begins ends : Editor σ → Event → Prop}

/-- The run came to an event that begins it, and after that to none that ends it. -/
def Since (start : Editor σ) (begins ends : Editor σ → Event → Prop) (xs : List Event) : Prop :=
  ∃ ys x zs, xs = ys ++ x :: zs ∧ begins (start.run ys).2 x ∧
    ∀ ws z, ws ++ [z] <+: zs → ¬ ends (start.run (ys ++ x :: ws)).2 z

theorem run_snoc (e : Editor σ) (xs : List Event) (x : Event) :
    (e.run (xs ++ [x])).2 = ((e.run xs).2.perform x).2 := by
  rw [run_append]
  rfl

theorem since_snoc {xs : List Event} {x : Event} :
    Since start begins ends (xs ++ [x]) ↔
      begins (start.run xs).2 x ∨ Since start begins ends xs ∧ ¬ ends (start.run xs).2 x := by
  constructor
  · rintro ⟨ys, y, zs, split, first, on⟩
    rcases List.eq_nil_or_concat zs with rfl | ⟨rest, last, rfl⟩
    · obtain ⟨rfl, same⟩ := List.append_inj' split rfl
      cases same
      exact .inl first
    · rw [List.concat_eq_append] at split on
      rw [← List.cons_append, ← List.append_assoc] at split
      obtain ⟨rfl, same⟩ := List.append_inj' split rfl
      cases same
      refine .inr ⟨⟨ys, y, rest, rfl, first, ?_⟩, on rest x (List.prefix_refl _)⟩
      intro ws z inside
      exact on ws z (inside.trans (List.prefix_append _ _))
  · rintro (first | ⟨⟨ys, y, zs, rfl, first, on⟩, goes⟩)
    · refine ⟨xs, x, [], rfl, first, ?_⟩
      intro ws z inside
      simp at inside
    · refine ⟨ys, y, zs ++ [x], by simp, first, ?_⟩
      intro ws z inside
      rcases List.prefix_concat_iff.mp inside with whole | before
      · obtain ⟨rfl, same⟩ := List.append_inj' whole rfl
        cases same
        exact goes
      · exact on ws z before

/-- What each event begins, ends or leaves alone holds after a run exactly since it began. -/
theorem run_iff_since {P : Editor σ → Prop}
    (law : ∀ e : Editor σ, e.InRange → ∀ x, P (e.perform x).2 ↔ begins e x ∨ P e ∧ ¬ ends e x)
    (inRange : start.InRange) (before : ¬ P start) (xs : List Event) :
    P (start.run xs).2 ↔ Since start begins ends xs := by
  induction xs using List.reverseRecOn with
  | nil =>
    refine iff_of_false before ?_
    rintro ⟨ys, x, zs, split, _⟩
    cases ys <;> cases split
  | append_singleton xs x ih =>
    rw [run_snoc, law _ (inRange_run inRange xs), since_snoc, ih]

end TagFormula.Editor
