import TagFormula.Proofs.Asking
import TagFormula.Proofs.Identifiers

/-!
A tag under a new name. It becomes what a text becomes where there is no source to ask: the number
that it is, or a variable. A variable stays the same one, and one that was a number gets an
identifier of its own. An action on another tag ends the rename first and goes on from there.
-/
namespace TagFormula

/-! ## Alike -/

theorem Amount.beq_self (a : Amount) : (a.val == a.val) = true := by
  have number := Number.Binary64.isNaN_of_isFinite a.finite
  rw [Float.isNaN_eq_decide_eq_nan, decide_eq_false_iff_not] at number
  exact Float.beq_self_iff.mpr number

theorem Token.alike_self (t : Token) : t.alike t = true := by
  cases t with
  | number a => exact a.beq_self
  | var id name a category => simp [alike, a.beq_self]
  | operator op => exact beq_self_eq_true op

namespace Editor

variable {σ : Type}

/-! ## What a new name makes of a tag -/

theorem alike_renamedToken (ids other : IdSupply) (old : Token) (text : String) :
    (renamedToken ids old (Text.trim text)).alike (tokenFor none other text) = true := by
  have named (id id' : String) : (Token.var id (Text.trim text) .zero none).alike
      (.var id' (Text.trim text) .zero none) = true :=
    (Token.var id (Text.trim text) .zero none).alike_self
  unfold renamedToken tokenFor
  cases Number.read? (Text.trim text) with
  | some v => exact Token.alike_self _
  | none =>
    simp only [found?, ite_self]
    cases old with
    | var id name v category => exact named id other.id
    | number v => exact named ids.id other.id
    | operator op => exact named ids.id other.id

theorem var_of_renamedToken {ids : IdSupply} {old : Token} {name id n : String} {v : Amount}
    {c : Option String} (made : renamedToken ids old name = .var id n v c) :
    c = none ∧ ∀ former, old.id? = some former → id = former := by
  unfold renamedToken at made
  cases literal : Number.read? name with
  | some v =>
    rw [literal] at made
    cases made
  | none =>
    rw [literal] at made
    cases old with
    | var former _ _ _ =>
      cases made
      exact ⟨rfl, fun _ same => Option.some.inj same⟩
    | number v | operator op =>
      cases made
      exact ⟨rfl, nofun⟩

/-! ## The end of a rename -/

variable [Store σ] {e : Editor σ} {i : Nat} {t : Token} {a : Action}

theorem finishRename_of_found (underway : e.session.renameAt = some i)
    (found : e.formula[i]? = some t) :
    e.finishRename.1 = .ok () ∧ e.finishRename.2.session = e.session.withoutRename := by
  have inside : i < e.cancelRename.formula.length := (List.getElem?_eq_some_iff.mp found).1
  obtain ⟨finished, session, _⟩ := applyName_spec t (Text.trim e.session.renameText) inside
  rw [finishRename_eq underway found]
  exact ⟨finished, session⟩

theorem finishOtherRename_of_apart (underway : e.session.renameAt = some i) {j : Nat}
    (apart : i ≠ j) : e.finishOtherRename j = e.finishRename := by
  simp only [finishOtherRename, underway, if_neg apart]

/-- What an action does to the session when no rename of another tag is in its way. -/
def goesOn (f : Formula) (s : Session) : Action → Session
  | .select j => { s with selection := if s.selection = some j then none else some j }
  | .startRename j =>
    { s with renameAt := some j, renameText := (f[j]?.map Token.label).getD "" }
  | _ => s

theorem entry_goesOn (f : Formula) (s : Session) (a : Action) : (goesOn f s a).entry = s.entry := by
  cases a <;> rfl

theorem carryOut_of_finishes (ends : e.finishes (.act a) i) (found : e.formula[i]? = some t) :
    let d := e.finishRename.2
    e.carryOut a = deliver [] { d with session := goesOn e.formula d.session a } := by
  intro d
  have underway := (finishes_cases ends).1
  have finished : e.finishRename = (.ok (), d) :=
    Prod.ext (finishRename_of_found underway found).1 rfl
  cases a with
  | select j =>
    obtain ⟨inside, _, apart⟩ := ends
    have selected : e.select j =
        (.ok (), { d with session := goesOn e.formula d.session (.select j) }) := by
      rw [select, if_neg (Nat.not_le.mpr inside), finishOtherRename_of_apart underway apart,
        finished]
      rfl
    rw [carryOut, selected]
    rfl
  | startRename j =>
    -- the label is read before the rename ends, and its tag is another one
    obtain ⟨⟨w, there, named⟩, _, apart⟩ := ends
    have started : e.startRename j w.label =
        (.ok (), { d with session := goesOn e.formula d.session (.startRename j) }) := by
      rw [startRename, finishOtherRename_of_apart underway apart, finished]
      simp only [goesOn, there, Option.map_some, Option.getD_some]
    simp only [carryOut, there, named, Bool.false_eq_true, ↓reduceIte, started]
    rfl
  | finishRename | clickOutside =>
    rw [carryOut, finished]
    rfl
  | _ => exact ends.elim

/-! ## A variable that was none -/

omit [Store σ] in
theorem not_renamesVar {u : Token} (found : e.formula[i]? = some t) (unnamed : t.id? = none) :
    ¬ e.RenamesVar (.replace i u) := by
  rintro ⟨k, id, old, v, c, name, _, there, same⟩
  cases same
  cases found.symm.trans there
  cases unnamed

theorem drawn_of_edits {u : Token} {id : String} (edits : e.actionEdits a = [.replace i u])
    (found : e.formula[i]? = some t) (unnamed : t.id? = none) (named : u.id? = some id) :
    id = e.ids.id ∧ (e.apply a).2.ids = e.ids.advance := by
  have made := (e.note (.action a)).identifies_carryOut a
  rw [actionEdits_note, edits] at made
  have brought : id ∈ [Edit.replace i u].flatMap Edit.brings := by
    rw [List.flatMap_singleton]
    exact Option.mem_toList.mpr named
  rw [apply]
  generalize ((e.note (.action a)).carryOut a).2.ids = after at made ⊢
  cases made with
  | drawn draws => exact draws.eq_id brought
  | kept name underway there =>
    cases found.symm.trans there
    cases unnamed

theorem unseen_of_edits {taken : String → Prop} {saved : List Formula} {u : Token} {id : String}
    (sound : Sound taken saved e) (edits : e.actionEdits a = [.replace i u])
    (found : e.formula[i]? = some t) (unnamed : t.id? = none) (named : u.id? = some id) :
    ¬ taken id := by
  have orderly := orderly_perform sound (x := .act a) trivial
  have member : Edit.replace i u ∈ e.actionEdits a := edits ▸ List.mem_singleton_self _
  have brought : id ∈ (Edit.replace i u).brings := Option.mem_toList.mpr named
  exact (orderly.new _ member rfl id brought).resolve_right (not_renamesVar found unnamed)

open Store (Logged)

/-- After every run, an action that ends the rename of a tag under a name that is neither blank nor
the old one: the rename is closed first, its text is gone, and what the action does then it does on
what that leaves. The tag has become what the text is resolved to without a source, a variable
without a category. It is the same variable if it was one; else its identifier comes from the
supply, and where all that came from outside is in order, no tag has had it. Nothing is asked, the
other tags, the entry and the candidates stay, and there is one save. -/
theorem finished_rename_as_free_text (ids : IdSupply) (lookup : Option Lookup) (store : Option σ)
    (ts : List (Turn σ)) :
    let start := Editor.new ids lookup (store.map (Logged.mk · []))
    let e := start.turnAll ts
    ∀ i t a, e.formula[i]? = some t → e.finishes (.act a) i →
      let text := e.session.renameText
      Text.trim text ≠ "" → Text.trim text ≠ t.label →
      let d := (e.note (.action a)).finishRename.2
      let f := (e.apply a).2
      d.session = e.session.withoutRename ∧
      e.apply a = deliver [] { d with session := goesOn e.formula d.session a } ∧
      (∃ u, f.formula = e.formula.set i u ∧
        (∀ alone : Editor σ, alone.lookup = none → u.alike (alone.resolve text).1 = true) ∧
        ∀ id n v c, u = .var id n v c →
          c = none ∧ (∀ former, t.id? = some former → id = former) ∧
          (t.id? = none → id = e.ids.id ∧ f.ids = e.ids.advance ∧
            (Admitted start ts → ¬ Seen start ts id))) ∧
      f.store = e.store.map (fun s => (Store.save s f.formula).2) ∧
      f.lookup = e.lookup ∧ f.session.entry = e.session.entry ∧ f.candidates = e.candidates := by
  intro start e i t a found ends text full other d f
  have underway := (finishes_cases ends).1
  have edits : e.actionEdits a = _ := edits_of_renames ends found full other
  obtain ⟨formula, stored⟩ := e.stores_apply a
  have carried : e.apply a = deliver [] { d with session := goesOn e.formula d.session a } :=
    carryOut_of_finishes (e := e.note (.action a)) ends found
  have undisturbed : Undisturbed e f := by
    obtain ⟨asked, entry⟩ := (e.note (.action a)).undisturbed_finishRename
    simp only [f, carried]
    exact ⟨asked, (entry_goesOn _ _ a).trans entry⟩
  rw [edits] at formula stored
  refine ⟨?_, carried, ⟨_, formula, ?_, ?_⟩, ?_, undisturbed.lookup, undisturbed.entry,
    undisturbed.candidates⟩
  · exact (finishRename_of_found (e := e.note (.action a)) underway found).2
  · intro alone bare
    rw [resolve_token, bare]
    exact alike_renamedToken _ _ _ _
  · intro id n v c made
    obtain ⟨bare, same⟩ := var_of_renamedToken made
    refine ⟨bare, same, fun unnamed => ?_⟩
    have named : (renamedToken e.ids t (Text.trim text)).id? = some id := congrArg Token.id? made
    obtain ⟨next, later⟩ := drawn_of_edits edits found unnamed named
    refine ⟨next, later, fun admitted => ?_⟩
    have sound : Sound (Seen start ts) e.savedSoFar e := sound_run ids lookup store admitted
    exact unseen_of_edits sound edits found unnamed named
  · rw [stored, formula]
    rfl

theorem admitted_actions (start : Editor (Logged σ)) (acts : List Action) :
    Admitted start (acts.map fun a => .happening (.event (.act a))) := by
  intro ws t begins
  have member := begins.subset (List.mem_append_right ws List.mem_cons_self)
  obtain ⟨a, _, rfl⟩ := List.mem_map.mp member
  trivial

def netOffered : Lookup := .new (.catalogue [⟨"n", "net", "finance", 7⟩]) 800

def numberNamed : List (Turn Memory) :=
  [.type "5", .commit, .type "x", .commit, .startRename 0, .typeRename " net "].map
    fun a => .happening (.event (.act a))

theorem number_renamed_by_selection :
    let start := Editor.new ⟨0, 0⟩ (some netOffered)
      ((some (⟨none, false, 0⟩ : Memory)).map (Logged.mk · []))
    ((start.turnAll numberNamed).apply (.select 1)).2.formula =
        [.var "0-1" "net" .zero none, .var "0-0" "x" .zero none] ∧
      ¬ Seen start numberNamed "0-1" := by
  have before : ((Editor.new ⟨0, 0⟩ (some netOffered)
      ((some (⟨none, false, 0⟩ : Memory)).map (Logged.mk · []))).turnAll numberNamed).formula =
        [.ofFloat 5, .var "0-0" "x" .zero none] := by decide +kernel
  have after : (((Editor.new ⟨0, 0⟩ (some netOffered)
      ((some (⟨none, false, 0⟩ : Memory)).map (Logged.mk · []))).turnAll numberNamed).apply
        (.select 1)).2.formula = [.var "0-1" "net" .zero none, .var "0-0" "x" .zero none] := by
    decide +kernel
  obtain ⟨_, _, ⟨u, formula, _, var⟩, _⟩ := finished_rename_as_free_text ⟨0, 0⟩
    (some netOffered) (some (⟨none, false, 0⟩ : Memory)) numberNamed 0 (.ofFloat 5) (.select 1)
    (by rw [before]; rfl) ⟨by rw [before]; decide, by decide +kernel, by decide⟩
    (by decide +kernel) (by decide +kernel)
  rw [after, before] at formula
  obtain ⟨_, _, fresh⟩ := var _ _ _ _ (List.cons.inj formula).1.symm
  exact ⟨after, (fresh rfl).2.2 (admitted_actions _ _)⟩

end Editor

end TagFormula
