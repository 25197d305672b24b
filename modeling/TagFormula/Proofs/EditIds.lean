import Mathlib.Data.List.Nodup
import Mathlib.Tactic.Tauto
import TagFormula.Proofs.Saving

/-!
The identifiers of the variables in a formula, through its edits. An edit that brings nothing in
under an identifier that is taken leaves none twice, nor do the formulas that are saved on the way
have one twice.
-/
namespace TagFormula

def Formula.varIds (f : Formula) : List String := f.filterMap Token.id?

namespace Edit

open Formula (varIds)

def brings : Edit → List String
  | append t | replace _ t => t.id?.toList
  | reload g => varIds g
  | _ => []

/-- Nothing comes in under an identifier that is taken, but for a tag that takes the place of
its bearer. -/
def Clean (f : Formula) : Edit → Prop
  | append t => ∀ id, t.id? = some id → id ∉ varIds f
  | replace i t => ∀ id, t.id? = some id → id ∉ varIds f ∨ f[i]?.bind Token.id? = some id
  | reload g => (varIds g).Nodup
  | _ => True

theorem varIds_append (f g : Formula) : varIds (f ++ g) = varIds f ++ varIds g :=
  List.filterMap_append

theorem varIds_cons (t : Token) (f : Formula) : varIds (t :: f) = t.id?.toList ++ varIds f := by
  unfold varIds
  rw [List.filterMap_cons]
  cases t.id? <;> rfl

theorem varIds_set {f : Formula} {i : Nat} (inside : i < f.length) (t : Token) :
    varIds (f.set i t) = varIds (f.take i) ++ (t.id?.toList ++ varIds (f.drop (i + 1))) := by
  rw [List.set_eq_take_append_cons_drop, if_pos inside, varIds_append, varIds_cons]

theorem varIds_eq {f : Formula} {i : Nat} (inside : i < f.length) :
    varIds f = varIds (f.take i) ++ (f[i].id?.toList ++ varIds (f.drop (i + 1))) := by
  rw [← varIds_set inside, List.set_getElem_self]

theorem varIds_eraseIdx (f : Formula) (i : Nat) : (varIds (f.eraseIdx i)).Sublist (varIds f) :=
  (List.eraseIdx_sublist f i).filterMap _

theorem mem_varIds_apply {d : Edit} {f : Formula} {id : String} (member : id ∈ varIds (d.apply f)) :
    id ∈ varIds f ∨ id ∈ d.brings := by
  cases d with
  | append t =>
    rw [apply, varIds_append, varIds_cons, List.mem_append] at member
    simpa [varIds, brings] using member
  | remove i => exact .inl ((varIds_eraseIdx f i).subset member)
  | replace i t =>
    rcases Nat.lt_or_ge i f.length with inside | outside
    · rw [apply, varIds_set inside] at member
      rw [varIds_eq inside]
      simp only [List.mem_append] at member ⊢
      tauto
    · rw [apply, List.set_eq_of_length_le outside] at member
      exact .inl member
  | clear => cases member
  | reload g => exact .inr member

theorem nodup_varIds_apply {d : Edit} {f : Formula} (distinct : (varIds f).Nodup)
    (clean : d.Clean f) : (varIds (d.apply f)).Nodup := by
  cases d with
  | append t =>
    rw [apply, varIds_append, varIds_cons]
    cases named : t.id? with
    | none => simpa [varIds] using distinct
    | some id =>
      have new := clean id named
      refine List.nodup_append.mpr ⟨distinct, by simp [varIds], ?_⟩
      intro a old b single same
      have member : b = id := by simpa [varIds] using single
      exact new (member ▸ same ▸ old)
  | remove i => exact distinct.sublist (varIds_eraseIdx f i)
  | replace i t =>
    rcases Nat.lt_or_ge i f.length with inside | outside
    · rw [apply, varIds_set inside]
      rw [varIds_eq inside] at distinct
      cases named : t.id? with
      | none => exact distinct.sublist (List.Sublist.append_left (List.sublist_append_right _ _) _)
      | some id =>
        rcases clean id named with new | kept
        · rw [varIds_eq inside] at new
          simp only [List.mem_append, not_or] at new
          have others : (varIds (f.take i) ++ varIds (f.drop (i + 1))).Nodup :=
            distinct.sublist (List.Sublist.append_left (List.sublist_append_right _ _) _)
          exact List.nodup_middle.mpr (List.nodup_cons.mpr ⟨by simp [new], others⟩)
        · rw [List.getElem?_eq_getElem inside, Option.bind_some] at kept
          rwa [kept] at distinct
    · rwa [apply, List.set_eq_of_length_le outside]
  | clear => exact List.nodup_nil
  | reload g => exact clean

def CleanAll : List Edit → Formula → Prop
  | [], _ => True
  | d :: ds, f => d.Clean f ∧ CleanAll ds (d.apply f)

theorem nodup_varIds_of_cleanAll {ds : List Edit} {f : Formula} (distinct : (varIds f).Nodup)
    (clean : CleanAll ds f) :
    (varIds (applyAll ds f)).Nodup ∧ ∀ g ∈ stages ds f, (varIds g).Nodup := by
  induction ds generalizing f with
  | nil => exact ⟨distinct, fun g member => absurd member List.not_mem_nil⟩
  | cons d ds ih =>
    have next := nodup_varIds_apply distinct clean.1
    obtain ⟨last, between⟩ := ih next clean.2
    refine ⟨last, fun g member => ?_⟩
    rcases List.mem_append.mp member with first | later
    · split at first
      · exact List.mem_singleton.mp first ▸ next
      · cases first
    · exact between g later

theorem mem_varIds_of_edits {ds : List Edit} {f : Formula} {id : String} :
    (id ∈ varIds (applyAll ds f) → id ∈ varIds f ∨ id ∈ ds.flatMap brings) ∧
      ∀ g ∈ stages ds f, id ∈ varIds g → id ∈ varIds f ∨ id ∈ ds.flatMap brings := by
  induction ds generalizing f with
  | nil => exact ⟨.inl, fun g member => absurd member List.not_mem_nil⟩
  | cons d ds ih =>
    have first : id ∈ varIds (d.apply f) ∨ id ∈ ds.flatMap brings →
        id ∈ varIds f ∨ id ∈ (d :: ds).flatMap brings := by
      rw [List.flatMap_cons, List.mem_append]
      rintro (member | later)
      · exact (mem_varIds_apply member).imp_right .inl
      · exact .inr (.inr later)
    obtain ⟨last, between⟩ := @ih (d.apply f)
    refine ⟨fun member => first (last member), fun g member named => ?_⟩
    rcases List.mem_append.mp member with stage | later
    · split at stage
      · exact first (.inl (List.mem_singleton.mp stage ▸ named))
      · cases stage
    · exact first (between g later named)

theorem cleanAll_of_new {ds : List Edit} {f : Formula} (distinct : (ds.flatMap brings).Nodup)
    (new : ∀ id ∈ ds.flatMap brings, id ∉ varIds f) : CleanAll ds f := by
  induction ds generalizing f with
  | nil => trivial
  | cons d ds ih =>
    rw [List.flatMap_cons] at distinct new
    obtain ⟨first, rest, apart⟩ := List.nodup_append.mp distinct
    have clean : d.Clean f := by
      cases d with
      | append t => exact fun id named => new id (by simp [brings, named])
      | replace i t => exact fun id named => .inl (new id (by simp [brings, named]))
      | reload g => exact first
      | remove i => trivial
      | clear => trivial
    refine ⟨clean, ih rest fun id later member => ?_⟩
    rcases mem_varIds_apply member with old | brought
    · exact new id (List.mem_append_right _ later) old
    · exact apart id brought id later rfl

theorem brings_appends (ts : List Token) : (ts.map append).flatMap brings = varIds ts := by
  induction ts with
  | nil => rfl
  | cons t ts ih => rw [List.map_cons, List.flatMap_cons, ih, varIds_cons]; rfl

end Edit

end TagFormula
