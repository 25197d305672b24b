import Mathlib.Data.List.Induction
import TagFormula.Proofs.Drawing
import TagFormula.Proofs.StoreLog
import TagFormula.Proofs.UntouchedRename

/-!
Identifiers over whole runs. As long as whoever adds tags from outside gives them identifiers of
their own, and whatever is loaded from elsewhere has none twice and none that is still to be given
out, no two variables of a formula ever share one. A variable keeps its identifier under a new
name; every other one that comes in has one that no tag had before.
-/
namespace TagFormula.Editor

variable {σ : Type} [Store σ]

open Formula (varIds)

/-! ## Events -/

/-- What comes from outside: a tag that is put in has an identifier of its own, and a formula that
is loaded was saved by this very editor, or has no identifier twice and none that is still to be
given out. -/
def Admissible (e : Editor σ) (taken : String → Prop) (saved : List Formula) : Event → Prop
  | .append t | .replaceAt _ t => ∀ id, t.id? = some id → ¬ taken id ∧ ¬ e.ids.Yields id
  | .load => ∀ f, e.stored? = some f →
    f ∈ saved ∨ (varIds f).Nodup ∧ ∀ id ∈ varIds f, ¬ e.ids.Yields id
  | _ => True

/-- What is taken has been given out for good, and neither the formula nor any that was saved has
an identifier twice. -/
structure Sound (taken : String → Prop) (saved : List Formula) (e : Editor σ) : Prop where
  nodup : (varIds e.formula).Nodup
  present : ∀ id ∈ varIds e.formula, taken id
  past : ∀ id, taken id → ¬ e.ids.Yields id
  saved : ∀ f ∈ saved, (varIds f).Nodup ∧ ∀ id ∈ varIds f, ¬ e.ids.Yields id

def RenamesVar (e : Editor σ) (d : Edit) : Prop :=
  ∃ k id old v c name, e.session.renameAt = some k ∧ e.formula[k]? = some (.var id old v c) ∧
    d = .replace k (.var id name .zero none)

structure Orderly (taken : String → Prop) (e : Editor σ) (ds : List Edit) (after : IdSupply) :
    Prop where
  clean : Edit.CleanAll ds e.formula
  spent : ∀ id ∈ ds.flatMap Edit.brings, ¬ after.Yields id
  later : ∀ id, after.Yields id → e.ids.Yields id
  new : ∀ d ∈ ds, d.isMutation = true → ∀ id ∈ d.brings, ¬ taken id ∨ e.RenamesVar d

variable {taken : String → Prop} {saved : List Formula} {e : Editor σ}

omit [Store σ] in
theorem Identifies.orderly {ds : List Edit} {after : IdSupply} (h : Identifies e ds after)
    (sound : Sound taken saved e) : Orderly taken e ds after := by
  cases h with
  | drawn draws =>
    have fresh : ∀ id ∈ ds.flatMap Edit.brings, ¬ taken id := by
      intro id member known
      exact sound.past id known ((draws.eq_id member).1 ▸ e.ids.yields_id)
    refine ⟨?_, ?_, fun id later => draws.yields later, ?_⟩
    · exact Edit.cleanAll_of_new draws.nodup fun id member inside =>
        fresh id member (sound.present id inside)
    · intro id member
      obtain ⟨rfl, rfl⟩ := draws.eq_id member
      exact e.ids.not_advance_yields_id
    · intro d member _ id brought
      exact .inl (fresh id (List.mem_flatMap.mpr ⟨d, member, brought⟩))
  | @kept k id old v c name underway found =>
    have inside : id ∈ varIds e.formula :=
      List.mem_filterMap.mpr ⟨_, List.mem_of_getElem? found, rfl⟩
    refine ⟨⟨?_, trivial⟩, ?_, fun _ later => later, ?_⟩
    · rintro _ ⟨⟩
      exact .inr (by rw [found]; rfl)
    · intro other member
      rw [List.flatMap_singleton] at member
      obtain rfl : other = id := List.mem_singleton.mp member
      exact sound.past other (sound.present other inside)
    · intro d member _ _ _
      exact .inr ⟨k, id, old, v, c, name, underway, found, List.mem_singleton.mp member⟩

omit [Store σ] in
theorem orderly_of_given {d : Edit} {after : IdSupply} (sound : Sound taken saved e)
    (same : after = e.ids) (distinct : d.brings.Nodup)
    (new : ∀ id ∈ d.brings, ¬ taken id ∧ ¬ e.ids.Yields id) : Orderly taken e [d] after := by
  subst same
  have brought : [d].flatMap Edit.brings = d.brings := List.flatMap_singleton _ _
  refine ⟨?_, ?_, fun _ later => later, ?_⟩
  · refine Edit.cleanAll_of_new (brought.symm ▸ distinct) fun id member inside => ?_
    exact (new id (brought ▸ member)).1 (sound.present id inside)
  · exact fun id member => (new id (brought ▸ member)).2
  · intro c member _ id named
    exact .inl (new id (List.mem_singleton.mp member ▸ named)).1

omit [Store σ] in
theorem orderly_of_nothing {after : IdSupply} (draws : e.ids.Draws [] after) :
    Orderly taken e [] after :=
  ⟨trivial, fun _ member => absurd member List.not_mem_nil, fun _ later => draws.yields later,
    fun _ member => absurd member List.not_mem_nil⟩

theorem ids_load (e : Editor σ) : e.load.2.ids = e.ids := by
  unfold load
  split
  · rfl
  · split
    · split <;> rfl
    · rfl
    · rfl
    · rfl

theorem orderly_load (sound : Sound taken saved e) (admitted : e.Admissible taken saved .load) :
    Orderly taken e (e.edits .load) e.load.2.ids := by
  rw [e.ids_load]
  cases read : e.stored? with
  | none =>
    simp only [edits, read, Option.map_none, Option.toList_none]
    exact orderly_of_nothing .nothing
  | some f =>
    simp only [edits, read, Option.map_some, Option.toList_some]
    obtain ⟨distinct, past⟩ := (admitted f read).elim (sound.saved f) id
    refine ⟨⟨distinct, trivial⟩, ?_, fun _ later => later, ?_⟩
    · simpa [Edit.brings] using past
    · intro d member mutates
      rw [List.mem_singleton.mp member] at mutates
      cases mutates

theorem orderly_perform (sound : Sound taken saved e) {x : Event}
    (admitted : e.Admissible taken saved x) :
    Orderly taken e (e.edits x) (e.perform x).2.ids := by
  have given {t : Token} (fresh : ∀ id, t.id? = some id → ¬ taken id ∧ ¬ e.ids.Yields id) :
      t.id?.toList.Nodup ∧ ∀ id ∈ t.id?.toList, ¬ taken id ∧ ¬ e.ids.Yields id := by
    cases named : t.id? with
    | none => simp
    | some id => simpa using fresh id named
  have unseen (f : Lookup → Harvest × Lookup) : Orderly taken e [] (e.withLookup f).2.ids := by
    refine orderly_of_nothing ?_
    unfold withLookup
    split <;> exact .nothing
  cases x with
  | act a =>
    have noted : Sound taken saved (e.note (.action a)) :=
      ⟨sound.nodup, sound.present, sound.past, sound.saved⟩
    obtain ⟨clean, spent, later, new⟩ := ((e.note (.action a)).identifies_carryOut a).orderly noted
    rw [actionEdits_note] at clean spent new
    exact ⟨clean, spent, later, new⟩
  | append t =>
    obtain ⟨distinct, new⟩ := given admitted
    exact orderly_of_given sound (e.ids_append t) distinct new
  | removeAt i =>
    simp only [edits]
    split
    · exact orderly_of_given sound (e.ids_removeAt i) List.nodup_nil
        fun _ member => absurd member List.not_mem_nil
    · exact orderly_of_nothing ((e.ids_removeAt i).symm ▸ .nothing)
  | replaceAt i t =>
    obtain ⟨distinct, new⟩ := given admitted
    simp only [edits]
    split
    · exact orderly_of_given sound (e.ids_replaceAt i t) distinct new
    · exact orderly_of_nothing ((e.ids_replaceAt i t).symm ▸ .nothing)
  | resolve text =>
    simp only [perform]
    exact orderly_of_nothing (e.draws_resolve text).unused
  | load => exact orderly_load sound admitted
  | harvest | await => exact unseen _
  | takeWarnings | take count | serveNext | drain | advanceTo time =>
    exact orderly_of_nothing .nothing

/-! ## Runs -/

open Store (Logged Attempt)

/-- What happens in a session: to the editor, to its store, or elsewhere, where a tag is given an
identifier from the same supply. -/
inductive Turn (σ : Type) where
  | happening (h : Happening σ)
  | drawn

def turn (e : Editor (Logged σ)) : Turn σ → Editor (Logged σ)
  | .happening h => e.happen h
  | .drawn => { e with ids := e.ids.advance }

def turnAll (e : Editor (Logged σ)) (ts : List (Turn σ)) : Editor (Logged σ) := ts.foldl turn e

def savedSoFar (e : Editor (Logged σ)) : List Formula :=
  match e.store with
  | some s => s.log.map Attempt.formula
  | none => []

/-- Some tag of the formula has had this identifier, be it one that was loaded. -/
def Seen (start : Editor (Logged σ)) (ts : List (Turn σ)) (id : String) : Prop :=
  ∃ ws, ws <+: ts ∧ id ∈ varIds (start.turnAll ws).formula

def Admits (start : Editor (Logged σ)) (ts : List (Turn σ)) : Turn σ → Prop
  | .happening (.event x) =>
    (start.turnAll ts).Admissible (Seen start ts) (start.turnAll ts).savedSoFar x
  | _ => True

def Admitted (start : Editor (Logged σ)) (ts : List (Turn σ)) : Prop :=
  ∀ ws t, ws ++ [t] <+: ts → Admits start ws t

variable {start : Editor (Logged σ)} {ts : List (Turn σ)} {t : Turn σ}

theorem turnAll_snoc : start.turnAll (ts ++ [t]) = (start.turnAll ts).turn t :=
  List.foldl_concat ..

theorem seen_nil {id : String} : Seen start [] id ↔ id ∈ varIds start.formula := by
  constructor
  · rintro ⟨ws, begins, member⟩
    rwa [List.prefix_nil.mp begins] at member
  · exact fun member => ⟨[], List.prefix_refl _, member⟩

theorem seen_snoc {id : String} :
    Seen start (ts ++ [t]) id ↔
      Seen start ts id ∨ id ∈ varIds ((start.turnAll ts).turn t).formula := by
  rw [← turnAll_snoc]
  constructor
  · rintro ⟨ws, begins, member⟩
    rcases List.prefix_concat_iff.mp begins with rfl | before
    · exact .inr member
    · exact .inl ⟨ws, before, member⟩
  · rintro (⟨ws, before, member⟩ | member)
    · exact ⟨ws, before.trans (List.prefix_append _ _), member⟩
    · exact ⟨_, List.prefix_refl _, member⟩

theorem admitted_nil : Admitted start [] := by
  intro ws t begins
  simp at begins

theorem admitted_snoc : Admitted start (ts ++ [t]) ↔ Admitted start ts ∧ Admits start ts t := by
  constructor
  · intro h
    exact ⟨fun ws u begins => h ws u (begins.trans (List.prefix_append _ _)),
      h ts t (List.prefix_refl _)⟩
  · rintro ⟨before, last⟩ ws u begins
    rcases List.prefix_concat_iff.mp begins with whole | inside
    · obtain ⟨rfl, same⟩ := List.append_inj' whole rfl
      cases same
      exact last
    · exact before ws u inside

theorem savedSoFar_perform (e : Editor (Logged σ)) (x : Event) :
    ∀ f ∈ (e.perform x).2.savedSoFar,
      f ∈ e.savedSoFar ∨ f ∈ Edit.stages (e.edits x) e.formula := by
  intro f member
  unfold savedSoFar at member ⊢
  rw [(e.stores_perform x).store] at member
  cases stored : e.store with
  | none =>
    rw [stored] at member
    cases member
  | some s =>
    simpa [stored, Store.afterSaves_logged, Store.map_formula_attempts] using member

omit [Store σ] in
theorem Sound.of_same {taken : String → Prop} {e d : Editor (Logged σ)}
    (h : Sound taken e.savedSoFar e) (formula : d.formula = e.formula)
    (saved : d.savedSoFar = e.savedSoFar) (later : ∀ id, d.ids.Yields id → e.ids.Yields id) :
    Sound (fun id => taken id ∨ id ∈ varIds d.formula) d.savedSoFar d := by
  refine ⟨formula ▸ h.nodup, fun _ member => .inr member, ?_, ?_⟩
  · rintro id (known | member) given
    · exact h.past id known (later id given)
    · exact h.past id (h.present id (formula ▸ member)) (later id given)
  · rw [saved]
    intro f member
    obtain ⟨distinct, past⟩ := h.saved f member
    exact ⟨distinct, fun id named given => past id named (later id given)⟩

theorem Sound.perform {taken : String → Prop} {e : Editor (Logged σ)}
    (h : Sound taken e.savedSoFar e) {x : Event}
    (admitted : e.Admissible taken e.savedSoFar x) :
    Sound (fun id => taken id ∨ id ∈ varIds (e.perform x).2.formula)
      (e.perform x).2.savedSoFar (e.perform x).2 := by
  obtain ⟨clean, spent, later, _⟩ := orderly_perform h admitted
  obtain ⟨distinct, stages⟩ := Edit.nodup_varIds_of_cleanAll h.nodup clean
  -- what is not brought in by the edits was there before them
  have past {id : String} (known : id ∈ varIds e.formula ∨
      id ∈ (e.edits x).flatMap Edit.brings) : ¬ (e.perform x).2.ids.Yields id := by
    rcases known with old | brought
    · exact fun given => h.past id (h.present id old) (later id given)
    · exact spent id brought
  refine ⟨?_, fun _ member => .inr member, ?_, ?_⟩
  · rw [(e.stores_perform x).formula]
    exact distinct
  · rintro id (known | member)
    · exact fun given => h.past id known (later id given)
    · rw [(e.stores_perform x).formula] at member
      exact past (Edit.mem_varIds_of_edits.1 member)
  · intro f member
    rcases e.savedSoFar_perform x f member with before | stage
    · obtain ⟨once, gone⟩ := h.saved f before
      exact ⟨once, fun id named given => gone id named (later id given)⟩
    · exact ⟨stages f stage, fun id named => past (Edit.mem_varIds_of_edits.2 f stage named)⟩

theorem sound_turn {taken : String → Prop} {e : Editor (Logged σ)}
    (h : Sound taken e.savedSoFar e) {t : Turn σ}
    (admitted : ∀ x, t = .happening (.event x) → e.Admissible taken e.savedSoFar x) :
    Sound (fun id => taken id ∨ id ∈ varIds (e.turn t).formula) (e.turn t).savedSoFar
      (e.turn t) := by
  rcases t with (x | change) | _
  · exact h.perform (admitted x rfl)
  · refine h.of_same rfl ?_ fun _ given => given
    simp only [turn, happen, savedSoFar]
    cases e.store <;> rfl
  · exact h.of_same rfl rfl fun _ given => IdSupply.yields_of_advance given

theorem sound_run (ids : IdSupply) (lookup : Option Lookup) (store : Option σ)
    (admitted : Admitted (Editor.new ids lookup (store.map (Logged.mk · []))) ts) :
    let start := Editor.new ids lookup (store.map (Logged.mk · []))
    Sound (Seen start ts) (start.turnAll ts).savedSoFar (start.turnAll ts) := by
  intro start
  induction ts using List.reverseRecOn with
  | nil =>
    have unsaved : start.savedSoFar = [] := by cases store <;> rfl
    refine ⟨List.nodup_nil, nofun, ?_, ?_⟩
    · intro id seen
      cases seen_nil.mp seen
    · intro f member
      rw [show (start.turnAll []).savedSoFar = [] from unsaved] at member
      cases member
  | append_singleton ts t ih =>
    obtain ⟨before, last⟩ := admitted_snoc.mp admitted
    have next := sound_turn (ih before) (t := t) (by rintro x rfl; exact last)
    rw [turnAll_snoc]
    have seen : Seen start (ts ++ [t]) = fun id =>
        Seen start ts id ∨ id ∈ varIds ((start.turnAll ts).turn t).formula :=
      funext fun id => propext seen_snoc
    rw [seen]
    exact next

theorem var_of_finishes {e : Editor σ} {x : Event} {k : Nat} {id old : String} {v : Amount}
    {c : Option String} (ends : e.finishes x k) (found : e.formula[k]? = some (.var id old v c))
    (full : Text.trim e.session.renameText ≠ "") (other : Text.trim e.session.renameText ≠ old)
    (noNumber : Number.read? (Text.trim e.session.renameText) = none) :
    (e.perform x).2.formula[k]? =
      some (.var id (Text.trim e.session.renameText) .zero none) := by
  have inside := (List.getElem?_eq_some_iff.mp found).1
  have named : renamedToken e.ids (.var id old v c) (Text.trim e.session.renameText) =
      .var id (Text.trim e.session.renameText) .zero none := by
    unfold renamedToken
    rw [noNumber]
  rw [(e.stores_perform x).formula, edits_of_renames ends found full other, named]
  exact List.getElem?_set_self inside

/-- After any run in which what comes from outside is in order, no two variables of the formula
share an identifier. A variable that gets another name keeps its own, and every other one that an
event brings in, unless it loads it, has one that no tag has had before. -/
theorem identifiers_never_reused (ids : IdSupply) (lookup : Option Lookup) (store : Option σ)
    (ts : List (Turn σ))
    (admitted : Admitted (Editor.new ids lookup (store.map (Logged.mk · []))) ts) :
    let start := Editor.new ids lookup (store.map (Logged.mk · []))
    let e := start.turnAll ts
    (varIds e.formula).Nodup ∧
    (∀ x k id old v c, e.finishes x k → e.formula[k]? = some (.var id old v c) →
      let name := Text.trim e.session.renameText
      name ≠ "" → name ≠ old → Number.read? name = none →
        (e.perform x).2.formula[k]? = some (.var id name .zero none)) ∧
    (∀ x, Admits start ts (.happening (.event x)) →
      (e.perform x).2.formula = Edit.applyAll (e.edits x) e.formula ∧
      ∀ d ∈ e.edits x, d.isMutation = true → ∀ id ∈ d.brings,
        ¬ Seen start ts id ∨ e.RenamesVar d) := by
  intro start e
  have sound : Sound (Seen start ts) e.savedSoFar e := sound_run ids lookup store admitted
  refine ⟨sound.nodup, ?_, ?_⟩
  · intro x k id old v c ends found name full other noNumber
    exact var_of_finishes ends found full other noNumber
  · intro x next
    exact ⟨(e.stores_perform x).formula, (orderly_perform sound next).new⟩

def revenueBefore : Token := .var "1-0" "Revenue" .zero none

def reopened : Editor (Logged Memory) :=
  Editor.new ⟨0, 0⟩ none (some (Logged.mk ⟨some (Formula.toStored [revenueBefore]), false, 0⟩ []))

def costsOffered : Suggestion := ⟨"c", "Costs", "finance", 0⟩

def rate : Token := .var "0-1" "Rate" .zero none

theorem reopened_loads : reopened.Admits [] (.happening (.event .load)) := by
  intro f read
  have loaded : reopened.stored? = some [revenueBefore] := by
    simp only [stored?, reopened, Editor.new, Option.map_some, Store.load, Memory.load,
      Bool.false_eq_true, ↓reduceIte, Formula.ofStored_toStored, Except.map]
  obtain rfl : [revenueBefore] = f := Option.some.inj (loaded.symm.trans read)
  have elsewhere : varIds [revenueBefore] = [IdSupply.idAt 1 0] := by
    simp [varIds, revenueBefore, Token.id?, IdSupply.idAt, Nat.toDigits_of_lt_base, Nat.digitChar]
  rw [elsewhere]
  refine .inr ⟨List.nodup_singleton _, fun id member => ?_⟩
  rw [List.mem_singleton.mp member]
  exact IdSupply.not_yields_of_session (by decide) 0

def beforeRate : List (Turn Memory) :=
  [] ++ [.happening (.event .load)] ++ [.happening (.event (.act (.choose costsOffered)))] ++
    [.drawn]

theorem admitted_beforeRate : reopened.Admitted beforeRate := by
  have loaded := admitted_snoc.mpr ⟨admitted_nil, reopened_loads⟩
  exact admitted_snoc.mpr ⟨admitted_snoc.mpr ⟨loaded, trivial⟩, trivial⟩

theorem identifiers_of_threeSources :
    let threeSources := beforeRate ++ [.happening (.event (.append rate))]
    reopened.Admitted threeSources ∧ (varIds (reopened.turnAll threeSources).formula).Nodup ∧
      varIds (reopened.turnAll threeSources).formula = ["1-0", "0-0", "0-1"] := by
  intro threeSources
  have new : reopened.Admits beforeRate (.happening (.event (.append rate))) := by
    rintro _ ⟨⟩
    have unseen : ¬ Seen reopened beforeRate "0-1" := by
      simp only [beforeRate, seen_snoc, seen_nil, not_or]
      decide +kernel
    have supply : (reopened.turnAll beforeRate).ids = (⟨0, 1⟩ : IdSupply).advance := by
      decide +kernel
    exact ⟨unseen, supply ▸ IdSupply.not_advance_yields_id ⟨0, 1⟩⟩
  have admitted := admitted_snoc.mpr ⟨admitted_beforeRate, new⟩
  exact ⟨admitted, (identifiers_never_reused ⟨0, 0⟩ none (some _) _ admitted).1,
    by decide +kernel⟩

end TagFormula.Editor
