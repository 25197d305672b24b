import TagFormula.Proofs.Asking
import TagFormula.Proofs.CutText
import TagFormula.Proofs.EnteredText

/-!
Text typed bit by bit, and text pasted. Typing cuts what is in the field at every operator and every
equals sign, and with each bit what is left in the field is typed once more. Without a lookup that
comes to the same: the formula, all that an evaluation tells, and the entry but for blanks at its
start, which an equals sign after nothing but blanks leaves behind.
-/
namespace TagFormula

namespace Typing

def cutsFrom (isCut : Bool) (piece : List Char) : List Char → List Action × Bool × List Char
  | [] => ([], isCut, piece)
  | c :: rest =>
    if c = '\t' then cutsFrom isCut piece rest
    else
      match cut? c with
      | some a =>
        let later := cutsFrom true [] rest
        (.type (String.ofList piece.reverse) :: a :: later.1, later.2)
      | none => cutsFrom isCut (c :: piece) rest

theorem actionsFrom_append (isCut : Bool) (piece xs ys : List Char) :
    actionsFrom isCut piece (xs ++ ys) =
      (cutsFrom isCut piece xs).1 ++
        actionsFrom (cutsFrom isCut piece xs).2.1 (cutsFrom isCut piece xs).2.2 ys := by
  induction xs generalizing isCut piece with
  | nil => rfl
  | cons c xs ih =>
    rw [List.cons_append, actionsFrom, cutsFrom]
    split
    · exact ih isCut piece
    · cases cut? c with
      | some a => simp only [ih true [], List.cons_append]
      | none => exact ih isCut (c :: piece)

end Typing

namespace Editor

open Typing (cutsFrom actionsFrom isPlain cut?)

variable {σ : Type} {e d : Editor σ}

def heard (os : List Outcome) : List Outcome :=
  (os.map Outcome.withoutWarnings).filter (· ≠ .effects [])

theorem heard_append (os ps : List Outcome) : heard (os ++ ps) = heard os ++ heard ps := by
  simp [heard]

theorem heard_cons_silent {o : Outcome} (os : List Outcome)
    (silent : o.withoutWarnings = .effects []) : heard (o :: os) = heard os := by
  simp [heard, silent]

theorem heard_cons_congr {o o' : Outcome} {os os' : List Outcome}
    (first : o.withoutWarnings = o'.withoutWarnings) (rest : heard os = heard os') :
    heard (o :: os) = heard (o' :: os') := by
  unfold heard at *
  rw [List.map_cons, List.map_cons, first, List.filter_cons, List.filter_cons, rest]

/-! ## The same but for the entry -/

/-- All but the entry, the store, the warnings and the log is the same, and there is no lookup. -/
structure Near (e d : Editor σ) : Prop where
  edition : SameEdition (e.enter "") (d.enter "")
  alone : e.lookup = none

namespace Near

theorem refl (alone : e.lookup = none) : Near e e := ⟨⟨rfl, rfl, rfl, rfl⟩, alone⟩

theorem symm (h : Near e d) : Near d e where
  edition := ⟨h.edition.formula.symm, h.edition.session.symm, h.edition.lookup.symm,
    h.edition.ids.symm⟩
  alone := h.edition.lookup.trans h.alone

theorem enter (h : Near e d) (text : String) : SameEdition (e.enter text) (d.enter text) :=
  h.edition.inSession fun s => { s with entry := text }

theorem of_edition (same : SameEdition e d) (alone : e.lookup = none) : Near e d :=
  ⟨same.inSession fun s => { s with entry := "" }, alone⟩

theorem type [Store σ] (h : Near e d) (text : String) :
    Near (e.perform (.act (.type text))).2 d ∧
      (e.perform (.act (.type text))).2.session.entry = text := by
  have asked := lookup_perform_of_none h.alone (.act (.type text))
  obtain ⟨formula, session, ids⟩ := e.perform_type_frame text
  generalize (e.perform (.act (.type text))).2 = c at *
  refine ⟨⟨⟨?_, ?_, ?_, ?_⟩, asked⟩, congrArg Session.entry session⟩
  · exact h.edition.formula.trans formula.symm
  · refine h.edition.session.trans ?_
    simp only [Editor.enter, session]
  · exact (h.edition.lookup.trans h.alone).trans asked.symm
  · exact h.edition.ids.trans ids.symm

end Near

/-! ## Typing -/

variable [Store σ]

def enact (e : Editor σ) (as : List Action) : List Outcome × Editor σ := e.run (as.map .act)

def typeChunk (e : Editor σ) (chunk : String) : List Outcome × Editor σ :=
  e.enact (Typing.actions (e.session.entry ++ chunk))

def typeChunks (e : Editor σ) : List String → List Outcome × Editor σ
  | [] => ([], e)
  | chunk :: rest =>
    match e.typeChunk chunk with
    | (os, d) =>
      match d.typeChunks rest with
      | (ps, c) => (os ++ ps, c)

theorem enact_append (e : Editor σ) (as bs : List Action) :
    e.enact (as ++ bs) =
      ((e.enact as).1 ++ ((e.enact as).2.enact bs).1, ((e.enact as).2.enact bs).2) := by
  rw [enact, List.map_append, run_append]
  rfl

/-! ## At a cut -/

theorem carryOut_of_trim {x y : String} {a : Action} (alone : e.lookup = none)
    (same : Text.trim x = Text.trim y)
    (cut : a = .evaluate ∧ ¬ Text.isBlankText x = true ∨
      ∃ op : Operator, a = .operator op.symbol) :
    (e.enter x).carryOut a = (e.enter y).carryOut a := by
  rcases cut with ⟨rfl, full⟩ | ⟨op, rfl⟩
  · have bare (z : String) : (e.enter z).candidates = [] :=
      candidates_of_bare (rawCandidates_of_alone alone)
    have committed := e.commit_of_trim same (by rw [bare, bare]) full
    simp only [carryOut, evaluate, committed]
  · simp only [carryOut, Operator.ofChar?_symbol, e.typeOperator_of_trim op same]

theorem evaluate_enter_of_blank {x : String} (e : Editor σ) (blank : Text.isBlankText x = true) :
    (e.enter x).evaluate = ((e.enter "").evaluate.1, (e.enter "").evaluate.2.enter x) := by
  have stays (z : String) (blanks : Text.isBlankText z = true) :
      (e.enter z).commit = e.enter z := by
    rw [commit, entry_enter, if_pos blanks]
  simp only [evaluate, stays x blank, stays "" rfl, formula_enter]
  cases e.formula.trace with
  | error fault => rfl
  | ok value =>
    simp only
    split
    · rfl
    · rfl

theorem Near.cut (h : Near e d) (same : Text.trim e.session.entry = Text.trim d.session.entry)
    {c : Char} {a : Action} (cut : cut? c = some a) :
    (d.perform (.act a)).1.withoutWarnings = (e.perform (.act a)).1.withoutWarnings ∧
      Near (e.perform (.act a)).2 (d.perform (.act a)).2 := by
  have whole (c : Editor σ) (n : Notice) : (c.note n).enter c.session.entry = c.note n := rfl
  have alone := lookup_perform_of_none h.alone (.act a)
  simp only [perform, apply, withoutWarnings_ofEffects] at alone ⊢
  by_cases bare : a = .evaluate ∧ Text.isBlankText e.session.entry = true
  · obtain ⟨rfl, blank⟩ := bare
    have left := (e.note (.action .evaluate)).evaluate_enter_of_blank blank
    have right := (d.note (.action .evaluate)).evaluate_enter_of_blank
      (isBlankText_of_trim same ▸ blank)
    rw [whole] at left right
    have carried := (h.edition.note (.action .evaluate) (.action .evaluate)).carryOut .evaluate
    simp only [carryOut] at carried alone ⊢
    rw [left] at alone ⊢
    rw [right]
    exact ⟨congrArg Outcome.ofEffects carried.told,
      carried.edition.inSession fun s => { s with entry := "" }, alone⟩
  · have cuts : a = .evaluate ∧ ¬ Text.isBlankText e.session.entry = true ∨
        ∃ op : Operator, a = .operator op.symbol := by
      rcases (Typing.isCut_of_cut? cut).1 with rfl | operator
      · exact .inl ⟨rfl, fun blank => bare ⟨rfl, blank⟩⟩
      · exact .inr operator
    have blanks := carryOut_of_trim (e := e.note (.action a)) h.alone same cuts
    have carried := ((h.enter d.session.entry).note (.action a) (.action a)).carryOut a
    rw [whole] at blanks
    rw [blanks] at alone ⊢
    exact ⟨congrArg Outcome.ofEffects carried.told, .of_edition carried.edition alone⟩

/-- Nothing but blanks stands in the field, and they would be typed once more as they are. -/
def IsSpare (e : Editor σ) : Prop :=
  ∀ c ∈ e.session.entry.toList, Text.isBlank c = true ∧ isPlain c = true

theorem isSpare_of_cut (plain : ∀ c ∈ e.session.entry.toList, isPlain c = true) {c : Char}
    {a : Action} (cut : cut? c = some a) : (e.perform (.act a)).2.IsSpare := by
  have left := (e.asks_perform (.act a)).entry
  unfold IsSpare
  rw [left]
  rcases (Typing.isCut_of_cut? cut).1 with rfl | ⟨op, rfl⟩
  · show ∀ c ∈ e.commitLeaves.toList, _
    unfold commitLeaves
    split
    · next blank =>
      intro b member
      exact ⟨List.all_eq_true.mp blank b member, plain b member⟩
    · exact fun b member => absurd member List.not_mem_nil
  · show ∀ c ∈ (e.actionLeaves (.operator op.symbol)).toList, _
    rw [actionLeaves_of_known (Operator.ofChar?_symbol op)]
    exact fun b member => absurd member List.not_mem_nil

/-! ## Side by side -/

/-- Two editors at the same place of a text: since the last cut the one has got the text `q`, the
other `p`, with blanks before it at most that the first has more; `j` and `k` tell whether a cut
has been seen, and then nothing but blanks stands in the field. -/
structure Synced (j : Bool) (q : List Char) (e : Editor σ) (k : Bool) (p : List Char)
    (d : Editor σ) : Prop where
  near : Near e d
  plain : ∀ c ∈ q, isPlain c = true
  lead : ∃ bs, q = p ++ bs ∧ ∀ b ∈ bs, Text.isBlank b = true
  left : j = true → e.IsSpare
  right : k = true → d.IsSpare

namespace Synced

variable {j k : Bool} {p q : List Char}

omit [Store σ] in
theorem dropWhile_eq (h : Synced j q e k p d) :
    q.reverse.dropWhile Text.isBlank = p.reverse.dropWhile Text.isBlank := by
  obtain ⟨bs, rfl, blank⟩ := h.lead
  rw [List.reverse_append]
  exact List.dropWhile_append_of_pos fun b member => blank b (List.mem_reverse.mp member)

theorem typeCut (h : Synced j q e k p d) {c : Char} {a : Action} (cut : cut? c = some a) :
    let e' := (e.perform (.act (.type (String.ofList q.reverse)))).2
    let d' := (d.perform (.act (.type (String.ofList p.reverse)))).2
    (d'.perform (.act a)).1.withoutWarnings = (e'.perform (.act a)).1.withoutWarnings ∧
      Synced true [] (e'.perform (.act a)).2 true [] (d'.perform (.act a)).2 := by
  obtain ⟨first, left⟩ := h.near.type (String.ofList q.reverse)
  obtain ⟨second, right⟩ := first.symm.type (String.ofList p.reverse)
  have plain := h.plain
  have same := h.dropWhile_eq
  obtain ⟨bs, rfl, _⟩ := h.lead
  generalize (e.perform (.act (.type (String.ofList (p ++ bs).reverse)))).2 = e' at *
  generalize (d.perform (.act (.type (String.ofList p.reverse)))).2 = d' at *
  have trims : Text.trim e'.session.entry = Text.trim d'.session.entry := by
    simp only [left, right, Text.trim, Text.trimmed, String.toList_ofList, same]
  obtain ⟨told, near⟩ := second.symm.cut trims cut
  refine ⟨told, near, List.forall_mem_nil _, ⟨[], rfl, List.forall_mem_nil _⟩, ?_, ?_⟩
  · refine fun _ => isSpare_of_cut ?_ cut
    rw [left, String.toList_ofList]
    exact fun b member => plain b (List.mem_reverse.mp member)
  · refine fun _ => isSpare_of_cut ?_ cut
    rw [right, String.toList_ofList]
    exact fun b member => plain b (List.mem_append_left _ (List.mem_reverse.mp member))

theorem cuts (h : Synced j q e k p d) (xs : List Char) :
    let r := cutsFrom j q xs
    let s := cutsFrom k p xs
    heard (d.enact s.1).1 = heard (e.enact r.1).1 ∧
      Synced r.2.1 r.2.2 (e.enact r.1).2 s.2.1 s.2.2 (d.enact s.1).2 := by
  induction xs generalizing j q e k p d with
  | nil => exact ⟨rfl, h⟩
  | cons c xs ih =>
    by_cases tab : c = '\t'
    · simp only [cutsFrom, if_pos tab]
      exact ih h
    · simp only [cutsFrom, if_neg tab]
      cases cut : cut? c with
      | none =>
        obtain ⟨bs, rfl, blank⟩ := h.lead
        refine ih ⟨h.near, ?_, ⟨bs, rfl, blank⟩, h.left, h.right⟩
        exact List.forall_mem_cons.mpr ⟨Typing.isPlain_iff.mpr ⟨tab, cut⟩, h.plain⟩
      | some a =>
        obtain ⟨told, after⟩ := h.typeCut cut
        obtain ⟨rest, last⟩ := ih after
        refine ⟨?_, last⟩
        simp only [enact, List.map_cons, run_cons] at rest ⊢
        rw [heard_cons_silent _ (told_type _ _), heard_cons_silent _ (told_type _ _)]
        exact heard_cons_congr told rest

theorem finish (h : Synced j q e k p d) :
    let after := e.enact (actionsFrom j q [])
    heard after.1 = [] ∧ ∃ q', after.2.session.entry = String.ofList q'.reverse ∧
      Synced false q' after.2 k p d := by
  unfold actionsFrom
  split
  · next spare =>
    obtain ⟨cut, nothing⟩ := Bool.and_eq_true_iff.mp spare
    obtain rfl := List.isEmpty_iff.mp nothing
    obtain ⟨bs, empty, _⟩ := h.lead
    obtain ⟨rfl, rfl⟩ := List.append_eq_nil_iff.mp empty.symm
    have left := h.left cut
    refine ⟨rfl, e.session.entry.toList.reverse, by simp [enact, run], h.near, ?_, ?_, ?_, h.right⟩
    · exact fun c member => (left c (List.mem_reverse.mp member)).2
    · exact ⟨_, rfl, fun c member => (left c (List.mem_reverse.mp member)).1⟩
    · exact fun absurd => (Bool.false_ne_true absurd).elim
  · obtain ⟨near, entry⟩ := h.near.type (String.ofList q.reverse)
    refine ⟨?_, q, entry, near, h.plain, h.lead, ?_, h.right⟩
    · exact heard_cons_silent [] (told_type _ _)
    · exact fun absurd => (Bool.false_ne_true absurd).elim

theorem chunk (h : Synced j q e k p d) (xs : List Char) :
    let after := e.enact (actionsFrom j q xs)
    let s := cutsFrom k p xs
    heard (d.enact s.1).1 = heard after.1 ∧
      ∃ q', after.2.session.entry = String.ofList q'.reverse ∧
        Synced false q' after.2 s.2.1 s.2.2 (d.enact s.1).2 := by
  obtain ⟨told, synced⟩ := h.cuts xs
  obtain ⟨silent, q', entry, last⟩ := synced.finish
  have split := Typing.actionsFrom_append j q xs []
  rw [List.append_nil] at split
  simp only
  rw [split, enact_append]
  refine ⟨?_, q', entry, last⟩
  rw [heard_append, silent, List.append_nil, told]

theorem chunks (h : Synced false q e k p d) (entry : e.session.entry = String.ofList q.reverse)
    (cs : List String) :
    let after := e.typeChunks cs
    let whole := d.enact (actionsFrom k p (String.join cs).toList)
    heard after.1 = heard whole.1 ∧ Near after.2 whole.2 ∧
      after.2.session.entry.toList.dropWhile Text.isBlank =
        whole.2.session.entry.toList.dropWhile Text.isBlank := by
  induction cs generalizing q e k p d with
  | nil =>
    have same := h.dropWhile_eq
    simp only [typeChunks, String.join_nil, String.toList_empty]
    unfold actionsFrom
    rw [entry, String.toList_ofList, same]
    split
    · next spare =>
      obtain ⟨cut, nothing⟩ := Bool.and_eq_true_iff.mp spare
      obtain rfl := List.isEmpty_iff.mp nothing
      refine ⟨rfl, h.near, (List.dropWhile_eq_nil_iff.mpr fun c member => ?_).symm⟩
      exact (h.right cut c member).1
    · obtain ⟨near, typed⟩ := h.near.symm.type (String.ofList p.reverse)
      refine ⟨(heard_cons_silent [] (told_type _ _)).symm, near.symm, ?_⟩
      simp only [enact, List.map_cons, List.map_nil, run, typed, String.toList_ofList]
  | cons c cs ih =>
    obtain ⟨told, q', entry', synced⟩ := h.chunk c.toList
    obtain ⟨rest, last⟩ := ih synced entry'
    have typed : e.typeChunk c = e.enact (actionsFrom false q c.toList) := by
      have plain : ∀ b ∈ q.reverse, isPlain b = true :=
        fun b member => h.plain b (List.mem_reverse.mp member)
      rw [typeChunk, Typing.actions, String.toList_append, entry, String.toList_ofList,
        Typing.actionsFrom_plain false [] c.toList plain, List.reverse_reverse, List.append_nil]
    rw [String.join_cons, String.toList_append, Typing.actionsFrom_append, enact_append]
    simp only [typeChunks, typed]
    refine ⟨?_, last⟩
    rw [heard_append, heard_append, told, rest]

end Synced

/-- Without a lookup, over every editor and every way to cut a text into bits: typing the bits one
after the other and pasting the text come to the same formula, the same evaluations and faults in
the same order, the same session and identifiers, and entries that differ in blanks at the start
only. -/
theorem typed_as_pasted (e : Editor σ) (alone : e.lookup = none) (first : String)
    (rest : List String) :
    let typed := e.typeChunks (first :: rest)
    let pasted := e.typeChunk (String.join (first :: rest))
    typed.2.formula = pasted.2.formula ∧ heard typed.1 = heard pasted.1 ∧
      SameEdition (typed.2.enter "") (pasted.2.enter "") ∧
      typed.2.session.entry.toList.dropWhile Text.isBlank =
        pasted.2.session.entry.toList.dropWhile Text.isBlank := by
  have start : Synced false [] e false [] e :=
    ⟨.refl alone, List.forall_mem_nil _, ⟨[], rfl, List.forall_mem_nil _⟩,
      fun absurd => (Bool.false_ne_true absurd).elim,
      fun absurd => (Bool.false_ne_true absurd).elim⟩
  obtain ⟨told, q, entry, synced⟩ := start.chunk (e.session.entry ++ first).toList
  obtain ⟨later, near, blanks⟩ := synced.chunks entry rest
  have whole : e.typeChunk (String.join (first :: rest)) = e.enact
      (actionsFrom false [] ((e.session.entry ++ first).toList ++ (String.join rest).toList)) := by
    rw [typeChunk, Typing.actions, String.join_cons, ← String.append_assoc, String.toList_append]
  rw [whole, Typing.actionsFrom_append, enact_append]
  refine ⟨near.edition.formula.symm, ?_, near.edition, blanks⟩
  simp only [typeChunks]
  rw [heard_append, heard_append, told, ← later]
  rfl

theorem typed_as_pasted_but_for_blank :
    let e := Editor.new ⟨0, 0⟩ none (none : Option Memory)
    let typed := e.typeChunks ["2*", "3= =", "x"]
    let pasted := e.typeChunk (String.join ["2*", "3= =", "x"])
    e.lookup = none ∧
      pasted.2.formula = [.ofFloat 2, .operator (.arithmetic .multiply), .ofFloat 3] ∧
      typed.2.session.entry = " x" ∧ pasted.2.session.entry = "x" ∧
      typed.2.formula = pasted.2.formula ∧ heard typed.1 = heard pasted.1 ∧
      typed.2.session.entry.toList.dropWhile Text.isBlank =
        pasted.2.session.entry.toList.dropWhile Text.isBlank := by
  have product : ((Editor.new ⟨0, 0⟩ none (none : Option Memory)).typeChunk
      (String.join ["2*", "3= =", "x"])).2.formula =
        [.ofFloat 2, .operator (.arithmetic .multiply), .ofFloat 3] := by decide +kernel
  have left : ((Editor.new ⟨0, 0⟩ none (none : Option Memory)).typeChunks
      ["2*", "3= =", "x"]).2.session.entry = " x" := by decide +kernel
  have right : ((Editor.new ⟨0, 0⟩ none (none : Option Memory)).typeChunk
      (String.join ["2*", "3= =", "x"])).2.session.entry = "x" := by decide +kernel
  obtain ⟨same, told, _, blanks⟩ :=
    typed_as_pasted (Editor.new ⟨0, 0⟩ none (none : Option Memory)) rfl "2*" ["3= =", "x"]
  exact ⟨rfl, product, left, right, same, told, blanks⟩

end Editor

end TagFormula
