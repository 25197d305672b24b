import Mathlib.Data.List.Forall2
import Mathlib.Data.List.TakeWhile
import TagFormula.Text.Lowercase

/-!
Small letters in context. Of all letters only a capital sigma has a small letter that depends on its
neighbours: at the end of a word it is another one than inside. So a text that ends in a sigma, and
a name in which the word goes on after it, have different small letters where they have the same
capitals. A text is found in every name that contains it exactly if its own characters settle the
form of each of its sigmas; in any other there is a name that it is not found in.
-/
namespace TagFormula

namespace Text

/-! ## Between other characters -/

def sigmaForm (before rest : List Char) : Char :=
  if meetsCased before && !meetsCased rest then 'ς' else 'σ'

def lowerBetween (before : List Char) : List Char → List Char → List Char
  | [], _ => []
  | c :: rest, after =>
    (if c = 'Σ' then [sigmaForm before (rest ++ after)] else lowerChar c) ++
      lowerBetween (c :: before) rest after

theorem lowerAfter_append_eq (before cs after : List Char) :
    lowerAfter before (cs ++ after) =
      lowerBetween before cs after ++ lowerAfter (cs.reverse ++ before) after := by
  induction cs generalizing before with
  | nil => rfl
  | cons c cs ih =>
    rw [List.cons_append, lowerAfter, ih, lowerBetween, List.reverse_cons, List.append_assoc,
      List.append_assoc, sigmaForm]
    rfl

theorem lowerBetween_nil (before cs : List Char) :
    lowerBetween before cs [] = lowerAfter before cs := by
  have whole := lowerAfter_append_eq before cs []
  rw [List.append_nil, lowerAfter, List.append_nil] at whole
  exact whole.symm

theorem lowerBetween_append (before cs ds after : List Char) :
    lowerBetween before (cs ++ ds) after =
      lowerBetween before cs (ds ++ after) ++ lowerBetween (cs.reverse ++ before) ds after := by
  induction cs generalizing before with
  | nil => rfl
  | cons c cs ih =>
    rw [List.cons_append, lowerBetween, ih, lowerBetween, List.reverse_cons, List.append_assoc,
      List.append_assoc, List.append_assoc]
    rfl

theorem forall₂_lowerBetween {R : Char → Char → Prop} (refl : ∀ c, R c c)
    {before after before' after' cs : List Char}
    (sigmas : ∀ p r, cs = p ++ 'Σ' :: r →
      R (sigmaForm (p.reverse ++ before) (r ++ after))
        (sigmaForm (p.reverse ++ before') (r ++ after'))) :
    List.Forall₂ R (lowerBetween before cs after) (lowerBetween before' cs after') := by
  induction cs generalizing before before' with
  | nil => exact .nil
  | cons c cs ih =>
    have first : List.Forall₂ R
        (if c = 'Σ' then [sigmaForm before (cs ++ after)] else lowerChar c)
        (if c = 'Σ' then [sigmaForm before' (cs ++ after')] else lowerChar c) := by
      split
      · next sigma => exact .cons (sigmas [] cs (by rw [sigma]; rfl)) .nil
      · exact List.forall₂_same.mpr fun c _ => refl c
    refine List.rel_append first (ih fun p r split => ?_)
    have later := sigmas (c :: p) r (by rw [split]; rfl)
    rw [List.reverse_cons, List.append_assoc, List.append_assoc] at later
    exact later

theorem lowerBetween_eq_iff {before after before' after' cs : List Char} :
    lowerBetween before cs after = lowerBetween before' cs after' ↔
      ∀ p r, cs = p ++ 'Σ' :: r →
        sigmaForm (p.reverse ++ before) (r ++ after) =
          sigmaForm (p.reverse ++ before') (r ++ after') := by
  constructor
  · rintro same p r rfl
    have front : (lowerBetween before p ('Σ' :: r ++ after)).length =
        (lowerBetween before' p ('Σ' :: r ++ after')).length :=
      (forall₂_lowerBetween (R := fun _ _ => True) (fun _ => trivial)
        fun _ _ _ => trivial).length_eq
    rw [lowerBetween_append, lowerBetween_append before'] at same
    have rest := (List.append_inj same front).2
    exact (List.cons.inj rest).1
  · intro sigmas
    have related := forall₂_lowerBetween (R := Eq) (fun _ => rfl) sigmas
    rwa [List.forall₂_eq_eq_eq] at related

/-! ## What decides the form of a sigma -/

/-- The search for a letter ends among these characters. -/
def Decides (cs : List Char) : Prop := ∃ c ∈ cs, isCaseIgnorable c = false

theorem dropWhile_eq_nil_iff_not_decides {cs : List Char} :
    cs.dropWhile isCaseIgnorable = [] ↔ ¬ Decides cs := by
  simp [Decides, List.dropWhile_eq_nil_iff]

theorem meetsCased_append_of_decides {cs : List Char} (decides : Decides cs) (ds : List Char) :
    meetsCased (cs ++ ds) = meetsCased cs := by
  cases met : cs.dropWhile isCaseIgnorable with
  | nil => exact (dropWhile_eq_nil_iff_not_decides.mp met decides).elim
  | cons c rest =>
    rw [meetsCased, meetsCased, List.dropWhile_append, met]
    rfl

theorem meetsCased_append_of_not_decides {cs : List Char} (skipped : ¬ Decides cs)
    (ds : List Char) : meetsCased (cs ++ ds) = meetsCased ds := by
  have nothing := dropWhile_eq_nil_iff_not_decides.mpr skipped
  rw [meetsCased, meetsCased, List.dropWhile_append, nothing]
  rfl

theorem meetsCased_of_not_decides {cs : List Char} (skipped : ¬ Decides cs) :
    meetsCased cs = false := by
  have nothing := meetsCased_append_of_not_decides skipped []
  rwa [List.append_nil] at nothing

theorem meetsCased_append_of_meetsCased {cs : List Char} (met : meetsCased cs = true)
    (ds : List Char) : meetsCased (cs ++ ds) = true := by
  by_cases decides : Decides cs
  · rw [meetsCased_append_of_decides decides, met]
  · cases (meetsCased_of_not_decides decides).symm.trans met

theorem decides_reverse {cs : List Char} : Decides cs.reverse ↔ Decides cs := by
  simp [Decides]

/-- The text itself settles the form of each of its capital sigmas, because a letter follows it, or
because something in the text decides whether a letter comes before it, and either none does or
something in the text also decides whether one follows. -/
def Settled (cs : List Char) : Prop :=
  ∀ p r, cs = p ++ 'Σ' :: r →
    meetsCased r = true ∨ Decides p ∧ (meetsCased p.reverse = false ∨ Decides r)

/-- In these surroundings every capital sigma has the form it has in the text alone. -/
def KeepsForms (before cs after : List Char) : Prop :=
  ∀ p r, cs = p ++ 'Σ' :: r →
    sigmaForm (p.reverse ++ before.reverse) (r ++ after) = sigmaForm p.reverse r

theorem Settled.keepsForms {cs : List Char} (settled : Settled cs) (before after : List Char) :
    KeepsForms before cs after := by
  intro p r split
  unfold sigmaForm
  rcases settled p r split with followed | ⟨decides, alone | ends⟩
  · rw [followed, meetsCased_append_of_meetsCased followed, Bool.not_true, Bool.and_false,
      Bool.and_false]
  · rw [meetsCased_append_of_decides (decides_reverse.mpr decides), alone, Bool.false_and,
      Bool.false_and]
  · rw [meetsCased_append_of_decides (decides_reverse.mpr decides),
      meetsCased_append_of_decides ends]

theorem settled_of_no_sigma {cs : List Char} (none : 'Σ' ∉ cs) : Settled cs := by
  rintro p r rfl
  exact (none (by simp)).elim

/-! ## Found -/

theorem lowerBetween_of_keepsForms {before cs after : List Char}
    (keeps : KeepsForms before cs after) :
    lowerBetween before.reverse cs after = lowerAfter [] cs := by
  rw [← lowerBetween_nil, lowerBetween_eq_iff]
  intro p r split
  rw [keeps p r split, List.append_nil, List.append_nil]

theorem lowerAfter_around (before cs after : List Char) :
    ∃ back, lowerAfter [] (before ++ cs ++ after) =
      lowerBetween [] before (cs ++ after) ++ lowerBetween before.reverse cs after ++ back := by
  refine ⟨lowerAfter (cs.reverse ++ before.reverse) after, ?_⟩
  rw [List.append_assoc, lowerAfter_append_eq, List.append_nil, lowerAfter_append_eq,
    List.append_assoc]

theorem infix_of_keepsForms {before cs after : List Char} (keeps : KeepsForms before cs after) :
    lowerAfter [] cs <:+: lowerAfter [] (before ++ cs ++ after) := by
  obtain ⟨back, around⟩ := lowerAfter_around before cs after
  rw [lowerBetween_of_keepsForms keeps] at around
  exact ⟨_, back, around.symm⟩

/-! ## Lost -/

inductive Closes : Char → Char → Prop
  | same (c : Char) : Closes c c
  | sigma : Closes 'σ' 'ς'

theorem closes_sigmaForm {before rest before' rest' : List Char}
    (start : meetsCased before = true → meetsCased before' = true)
    (stop : meetsCased rest' = true → meetsCased rest = true) :
    Closes (sigmaForm before rest) (sigmaForm before' rest') := by
  unfold sigmaForm
  split
  · next final =>
    simp only [Bool.and_eq_true, Bool.not_eq_true'] at final
    have ends : meetsCased rest' = false := Bool.eq_false_iff.mpr fun met =>
      Bool.false_ne_true (final.2.symm.trans (stop met))
    rw [start final.1, ends]
    exact .same _
  · split
    · exact .sigma
    · exact .same _

theorem count_of_closes {ls ms : List Char} (closes : List.Forall₂ Closes ls ms) :
    ls = ms ∨ ls.count 'ς' < ms.count 'ς' ∧ ms.count 'σ' < ls.count 'σ' := by
  induction closes with
  | nil => exact .inl rfl
  | @cons c d ls ms first _ ih =>
    rcases ih with rfl | ⟨more, fewer⟩
    · cases first with
      | same => exact .inl rfl
      | sigma => exact .inr ⟨by simp, by simp⟩
    · right
      cases first with
      | same =>
        simp only [List.count_cons]
        exact ⟨by omega, by omega⟩
      | sigma =>
        simp only [List.count_cons_self, List.count_cons_of_ne (by decide : 'σ' ≠ 'ς'),
          List.count_cons_of_ne (by decide : 'ς' ≠ 'σ')]
        exact ⟨by omega, by omega⟩

theorem not_infix_of_count {ls ms : List Char} {c : Char} (fewer : ms.count c < ls.count c) :
    ¬ ls <:+: ms :=
  fun inside => Nat.not_le.mpr fewer (inside.sublist.count_le c)

theorem lowerAfter_cons_letter (before cs : List Char) :
    lowerAfter before ('A' :: cs) = 'a' :: lowerAfter ('A' :: before) cs := by
  have small : lowerChar 'A' = ['a'] := by decide +kernel
  rw [lowerAfter, if_neg (by decide), small]
  rfl

theorem meetsCased_letter : meetsCased ['A'] = true := by decide +kernel

theorem lost_after_letter {cs p r : List Char} (split : cs = p ++ 'Σ' :: r)
    (skipped : ¬ Decides p) (last : meetsCased r = false) :
    ¬ lowerAfter [] cs <:+: lowerAfter [] ('A' :: cs) := by
  have skipped' : ¬ Decides p.reverse := fun decides => skipped (decides_reverse.mp decides)
  have closes : List.Forall₂ Closes (lowerBetween [] cs []) (lowerBetween ['A'] cs []) := by
    refine forall₂_lowerBetween .same fun p r _ => closes_sigmaForm (fun met => ?_) id
    rw [List.append_nil] at met
    exact meetsCased_append_of_meetsCased met _
  have differ : lowerBetween [] cs [] ≠ lowerBetween ['A'] cs [] := by
    intro same
    have form := lowerBetween_eq_iff.mp same p r split
    rw [List.append_nil, List.append_nil, sigmaForm, sigmaForm, last,
      meetsCased_of_not_decides skipped', meetsCased_append_of_not_decides skipped',
      meetsCased_letter] at form
    cases form
  -- the text could still be found elsewhere in the name, but there are too few sigmas for any place
  have fewer := ((count_of_closes closes).resolve_left differ).2
  rw [lowerBetween_nil, lowerBetween_nil] at fewer
  refine not_infix_of_count (c := 'σ') ?_
  rwa [lowerAfter_cons_letter, List.count_cons_of_ne (by decide)]

theorem lost_before_letter {cs p r : List Char} (split : cs = p ++ 'Σ' :: r)
    (met : meetsCased p.reverse = true) (skipped : ¬ Decides r) :
    ¬ lowerAfter [] cs <:+: lowerAfter [] (cs ++ ['A']) := by
  have closes : List.Forall₂ Closes (lowerBetween [] cs ['A']) (lowerBetween [] cs []) := by
    refine forall₂_lowerBetween .same fun p r _ => closes_sigmaForm id fun met => ?_
    rw [List.append_nil] at met
    exact meetsCased_append_of_meetsCased met _
  have differ : lowerBetween [] cs ['A'] ≠ lowerBetween [] cs [] := by
    intro same
    have form := lowerBetween_eq_iff.mp same p r split
    rw [List.append_nil, List.append_nil, sigmaForm, sigmaForm, met,
      meetsCased_of_not_decides skipped, meetsCased_append_of_not_decides skipped,
      meetsCased_letter] at form
    cases form
  have fewer := ((count_of_closes closes).resolve_left differ).1
  rw [lowerBetween_nil] at fewer
  refine not_infix_of_count (c := 'ς') ?_
  rw [lowerAfter_append_eq, lowerAfter_cons_letter, List.count_append,
    List.count_cons_of_ne (by decide)]
  exact fewer

theorem exists_lost_of_not_settled {cs : List Char} (loose : ¬ Settled cs) :
    ∃ before after, ¬ lowerAfter [] cs <:+: lowerAfter [] (before ++ cs ++ after) := by
  simp only [Settled, not_forall, not_or, not_and] at loose
  obtain ⟨p, r, split, last, unsettled⟩ := loose
  by_cases decides : Decides p
  · obtain ⟨met, skipped⟩ := unsettled decides
    exact ⟨[], ['A'], lost_before_letter split (Bool.of_not_eq_false met) skipped⟩
  · refine ⟨['A'], [], ?_⟩
    rw [List.append_nil]
    exact lost_after_letter split decides (Bool.eq_false_iff.mpr last)

end Text

end TagFormula
