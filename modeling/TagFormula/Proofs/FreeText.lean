import TagFormula.Proofs.CommitTiming

/-!
What a text stands for. A text that is a number is that number. Any other is looked for by its name
in the whole catalogue, first for an entry with this very name, then for one whose name contains it,
and what is not found is a new variable. The catalogue only gives what contains the text, and the
search among that has the same end. A search disturbs nothing that was asked for before it.
-/
namespace TagFormula

namespace Suggestion

def IsFirst (p : Suggestion → Prop) (entries : List Suggestion) (s : Suggestion) : Prop :=
  p s ∧ ∃ before after, entries = before ++ s :: after ∧ ∀ u ∈ before, ¬ p u

def HasName (text : String) (s : Suggestion) : Prop := Text.lower s.name = Text.lower text

def NameHolds (text : String) (s : Suggestion) : Prop :=
  (Text.lower text).toList <:+: (Text.lower s.name).toList

/-- The entry that a text means, if any: the first one with this name, or if there is none, the
first one whose name holds the text. Capitals make no difference. -/
inductive Meant (text : String) (entries : List Suggestion) : Option Suggestion → Prop
  | name {s : Suggestion} : IsFirst (HasName text) entries s → Meant text entries (some s)
  | part {s : Suggestion} : (∀ u ∈ entries, ¬ HasName text u) →
    IsFirst (NameHolds text) entries s → Meant text entries (some s)
  | nothing : (∀ u ∈ entries, ¬ NameHolds text u) → Meant text entries none

variable {text : String} {entries : List Suggestion} {s : Suggestion}

theorem nameHolds_of_hasName (named : HasName text s) : NameHolds text s := by
  unfold HasName at named
  unfold NameHolds
  exact named ▸ List.infix_refl _

theorem nameHolds_iff :
    NameHolds text s ↔ s.nameContains (Text.lower text).toList = true :=
  Text.occursIn_iff.symm

theorem isFirst_iff_find? {p : Suggestion → Prop} {q : Suggestion → Bool}
    (decides : ∀ s, p s ↔ q s = true) : IsFirst p entries s ↔ entries.find? q = some s := by
  rw [List.find?_eq_some_iff_append, IsFirst, decides]
  refine and_congr_right fun _ => ?_
  simp only [decides, Bool.not_eq_true, Bool.not_eq_true']

theorem none_iff_find? {p : Suggestion → Prop} {q : Suggestion → Bool}
    (decides : ∀ s, p s ↔ q s = true) :
    (∀ u ∈ entries, ¬ p u) ↔ entries.find? q = none := by
  simp only [List.find?_eq_none, decides]

theorem meant_iff {found : Option Suggestion} :
    Meant text entries found ↔ best? text entries = found := by
  have byName : ∀ s, HasName text s ↔ (Text.lower s.name == Text.lower text) = true :=
    fun s => beq_iff_eq.symm
  constructor
  · intro meant
    unfold best?
    cases meant with
    | name first => simp only [(isFirst_iff_find? byName).mp first]
    | part none first =>
      simp only [(none_iff_find? byName).mp none]
      exact (isFirst_iff_find? fun _ => nameHolds_iff).mp first
    | nothing none =>
      have unnamed : ∀ u ∈ entries, ¬ HasName text u := fun u member named =>
        none u member (nameHolds_of_hasName named)
      simp only [(none_iff_find? byName).mp unnamed]
      exact (none_iff_find? fun _ => nameHolds_iff).mp none
  · rintro rfl
    unfold best?
    simp only
    split
    · next s first => exact .name ((isFirst_iff_find? byName).mpr first)
    · next unnamed =>
      have none := (none_iff_find? byName).mpr unnamed
      cases part : entries.find? (·.nameContains (Text.lower text).toList) with
      | none => exact .nothing ((none_iff_find? fun _ => nameHolds_iff).mpr part)
      | some s => exact .part none ((isFirst_iff_find? fun _ => nameHolds_iff).mpr part)

theorem meant_filter_iff {found : Option Suggestion} :
    Meant text (filter text entries) found ↔ Meant text entries found := by
  rw [meant_iff, meant_iff, best?_filter]

theorem IsFirst.mem {p : Suggestion → Prop} (first : IsFirst p entries s) : s ∈ entries := by
  obtain ⟨_, before, after, split, _⟩ := first
  rw [split]
  exact List.mem_append_right before List.mem_cons_self

theorem exists_meant_iff : (∃ s, Meant text entries (some s)) ↔ filter text entries ≠ [] := by
  have matches_iff : filter text entries ≠ [] ↔ ∃ s ∈ entries, NameHolds text s := by
    simp [filter, List.filter_eq_nil_iff, nameHolds_iff]
  rw [matches_iff]
  constructor
  · rintro ⟨s, meant⟩
    cases meant with
    | name first => exact ⟨s, first.mem, nameHolds_of_hasName first.1⟩
    | part _ first => exact ⟨s, first.mem, first.1⟩
  · rintro ⟨s, member, holds⟩
    cases found : best? text entries with
    | some t => exact ⟨t, meant_iff.mpr found⟩
    | none =>
      cases meant_iff.mpr found with
      | nothing none => exact (none s member holds).elim

end Suggestion

namespace Editor

open Suggestion (Meant filter)

variable {σ : Type} {entries : List Suggestion} {delay : Nat} {ys : List Lookup.Event}
  {e : Editor σ}

theorem view_resolve (e : Editor σ) (text : String) :
    (e.resolve text).2.lookup.map Lookup.view = e.lookup.map Lookup.view := by
  rw [(e.asks_resolve text).lookup, Option.map_map]
  exact congrArg (e.lookup.map ·)
    (funext fun l => l.view_run_of_isUnseen (unseen_resolving text))

theorem candidates_resolve (e : Editor σ) (text : String) :
    (e.resolve text).2.candidates = e.candidates := by
  have shown (d : Editor σ) :
      d.rawCandidates = (d.lookup.map Lookup.view).elim [] (·.candidates) := by
    unfold rawCandidates
    cases d.lookup <;> rfl
  rw [candidates, candidates, shown, shown, view_resolve, (e.sameButLookup_resolve text).session]

theorem tokenFor_of_empty {lookup : Option Lookup} {ids : IdSupply} {text : String}
    (empty : Text.trim text = "") : tokenFor lookup ids text = .var ids.id "" .zero none := by
  have noNumber : Number.read? "" = none := by decide
  simp only [tokenFor, empty, noNumber]
  rfl

theorem resolve_catalogue (h : Follows (.catalogue entries) delay ys e) {text : String}
    (noNumber : Number.read? (Text.trim text) = none) (full : Text.trim text ≠ "") :
    ∃ found, Meant (Text.trim text) entries found ∧ (e.resolve text).1 =
      match found with
      | some s => (s.insert e.ids).1
      | none => .var e.ids.id (Text.trim text) .zero none := by
  refine ⟨_, Suggestion.meant_iff.mpr rfl, ?_⟩
  rw [resolve_token, tokenFor_catalogue h full noNumber]
  rfl

theorem brought_after_resolve [Store σ] (h : Follows (.catalogue entries) delay ys e)
    (text : String) {l : Lookup} {x : Expected} (lookup : e.lookup = some l)
    (waiting : l.view.expected = some x) :
    let d := ((e.resolve text).2.onLookup Lookup.drain).harvest
    d.1 = .candidates ∧ d.2.rawCandidates = filter x.text entries := by
  have after := h.perform (.resolve text)
  simp only [perform] at after
  have drained : Follows (.catalogue entries) delay _ ((e.resolve text).2.onLookup Lookup.drain) :=
    after.perform .drain
  have seen := e.view_resolve text
  rw [lookup, after.lookup] at seen
  have waits := (congrArg Lookup.View.expected (Option.some.inj seen)).trans waiting
  have brings := after.brings after.lookup waits
  have still := (congrArg Lookup.View.expected (Lookup.view_drain _)).trans waits
  exact ⟨brings, drained.brought (lookup_onLookup after.lookup _) still brings⟩

/-- What a text is resolved to over a catalogue, after every run: the number that it is, else what
it means among all entries, else a new variable. It means the same among the entries the catalogue
gives for it. What is expected and the candidates stay, and what is expected is still brought. -/
theorem free_text_over_catalogue [Store σ] (entries : List Suggestion) (delay : Nat)
    (ids : IdSupply) (store : Option σ) (xs : List Event) :
    let e := ((Editor.new ids (some (.new (.catalogue entries) delay)) store).run xs).2
    ∀ text, let name := Text.trim text
      (∀ v, Number.read? name = some v → (e.resolve text).1 = .ofFloat v) ∧
      (name = "" → (e.resolve text).1 = .var e.ids.id "" .zero none) ∧
      (Number.read? name = none → name ≠ "" → ∃ found, Meant name entries found ∧
        (e.resolve text).1 = match found with
          | some s => (s.insert e.ids).1
          | none => .var e.ids.id name .zero none) ∧
      (∀ found, Meant name (filter name entries) found ↔ Meant name entries found) ∧
      ((∃ s, Meant name entries (some s)) ↔ filter name entries ≠ []) ∧
      SameButLookup e (e.resolve text).2 ∧
      (e.resolve text).2.lookup.map Lookup.view = e.lookup.map Lookup.view ∧
      (e.resolve text).2.candidates = e.candidates ∧
      (∀ l x, e.lookup = some l → l.view.expected = some x →
        let d := ((e.resolve text).2.onLookup Lookup.drain).harvest
        d.1 = .candidates ∧ d.2.rawCandidates = filter x.text entries) := by
  intro e text name
  obtain ⟨ys, follows⟩ := (follows_new (.catalogue entries) delay ids store).run xs
  refine ⟨?_, ?_, resolve_catalogue follows, fun _ => Suggestion.meant_filter_iff,
    Suggestion.exists_meant_iff, e.sameButLookup_resolve text, e.view_resolve text,
    e.candidates_resolve text, ?_⟩
  · intro v literal
    rw [e.resolve_token text, tokenFor_of_literal literal]
  · intro empty
    rw [e.resolve_token text, tokenFor_of_empty empty]
  · intro l x lookup waiting
    exact brought_after_resolve follows text lookup waiting

def revenueEntry : Suggestion := ⟨"r", "Revenue", "finance", 1200⟩

def revenueEntries : List Suggestion := [⟨"n", "Net revenue", "finance", 40⟩, revenueEntry]

def revTyped : Editor Memory :=
  ((Editor.new ⟨0, 0⟩ (some (.new (.catalogue revenueEntries) 800)) none).run
    [.act (.type "rev")]).2

/-- A name in capitals, while the candidates for a part of it are still to come. -/
theorem revenue_while_waiting :
    (revTyped.resolve " 4 ").1 = .ofFloat 4 ∧
      (revTyped.resolve " ").1 = .var revTyped.ids.id "" .zero none ∧
      Meant (Text.trim " REVENUE ") revenueEntries (some revenueEntry) ∧
      (revTyped.resolve " REVENUE ").1 = (revenueEntry.insert revTyped.ids).1 ∧
      ((revTyped.resolve " REVENUE ").2.onLookup Lookup.drain).harvest.1 = .candidates ∧
      ((revTyped.resolve " REVENUE ").2.onLookup Lookup.drain).harvest.2.rawCandidates =
        filter "rev" revenueEntries := by
  have whole := free_text_over_catalogue revenueEntries 800 ⟨0, 0⟩ (none : Option Memory)
    [.act (.type "rev")]
  obtain ⟨number, _⟩ := whole " 4 "
  obtain ⟨_, empty, _⟩ := whole " "
  obtain ⟨_, _, name, _, _, _, _, _, brought⟩ := whole " REVENUE "
  have best : Meant (Text.trim " REVENUE ") revenueEntries (some revenueEntry) :=
    Suggestion.meant_iff.mpr (by decide +kernel)
  obtain ⟨found, meant, resolved⟩ := name (by decide +kernel) (by decide +kernel)
  obtain rfl : found = some revenueEntry :=
    (Suggestion.meant_iff.mp meant).symm.trans (Suggestion.meant_iff.mp best)
  have expects : revTyped.lookup.map (·.view.expected) = some (some ⟨1, "rev", 800⟩) := by
    decide +kernel
  obtain ⟨l, lookup, waiting⟩ := Option.map_eq_some_iff.mp expects
  have four : Number.read? (Text.trim " 4 ") = some 4 := by decide +kernel
  have nothing : Text.trim " " = "" := by decide +kernel
  refine ⟨number 4 four, empty nothing, best, resolved, ?_⟩
  exact brought l ⟨1, "rev", 800⟩ lookup waiting

example :
    ((Editor.new ⟨0, 0⟩ (some (.new (.catalogue [⟨"p", "plus +", "unit", 1⟩,
      ⟨"o", "+", "operator", 0⟩]) 800)) (none : Option Memory)).resolve " + ").1 =
        .operator (.arithmetic .add) := by
  decide +kernel

end Editor

end TagFormula
