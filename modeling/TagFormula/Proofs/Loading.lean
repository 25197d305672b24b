import TagFormula.Proofs.FileWrites
import TagFormula.Proofs.Refusal

/-!
Loading is all or nothing. A stored text either is a JSON array of well-formed records or it is
malformed, wherever it goes wrong and whatever symbols stand before. The tags of an array of records
are exactly those whose records they are; if there are none, the first symbol that is no operator is
to blame. An editor that cannot load stays as it was.
-/
namespace TagFormula

/-! ## Well-formed records -/

namespace Record

def valuesOf (name : String) (members : List (String × Json)) : List Json :=
  (members.filter (·.1 == name)).map Prod.snd

/-- What stands for a category: nothing at all, null, or a text. -/
inductive CategoryValues : List Json → Option String → Prop
  | missing : CategoryValues [] none
  | null : CategoryValues [.null] none
  | text (category : String) : CategoryValues [.string category] (some category)

/-- An object with one member of each name that its kind asks for, anywhere in it and among any
others, or the row of their values. -/
inductive Describes : Json → Record → Prop
  | number {members : List (String × Json)} {v : Float}
      (kindOnce : valuesOf "kind" members = [.string "number"])
      (valueOnce : valuesOf "value" members = [.number v]) :
    Describes (.object members) (.number v)
  | var {members : List (String × Json)} {id name : String} {v : Float} {category : Option String}
      (kindOnce : valuesOf "kind" members = [.string "variable"])
      (idOnce : valuesOf "id" members = [.string id])
      (nameOnce : valuesOf "name" members = [.string name])
      (valueOnce : valuesOf "value" members = [.number v])
      (atMostOnce : CategoryValues (valuesOf "category" members) category) :
    Describes (.object members) (.var id name v category)
  | operator {members : List (String × Json)} {symbol : String}
      (kindOnce : valuesOf "kind" members = [.string "operator"])
      (symbolOnce : valuesOf "symbol" members = [.string symbol]) :
    Describes (.object members) (.operator symbol)
  | numberRow {v : Float} : Describes (.array [.string "number", .number v]) (.number v)
  | varRow {id name : String} {v : Float} {values : List Json} {category : Option String}
      (atMostOnce : CategoryValues values category) :
    Describes (.array (.string "variable" :: .string id :: .string name :: .number v :: values))
      (.var id name v category)
  | operatorRow {symbol : String} :
    Describes (.array [.string "operator", .string symbol]) (.operator symbol)

theorem member?_eq_some_iff {name : String} {members : List (String × Json)} {v : Json} :
    member? name members = some v ↔ valuesOf name members = [v] := by
  unfold member? valuesOf
  generalize members.filter (·.1 == name) = found
  rcases found with _ | ⟨first, _ | ⟨second, rest⟩⟩ <;> simp

theorem asString?_eq_some_iff {j : Json} {s : String} : asString? j = some s ↔ j = .string s := by
  cases j <;> simp [asString?]

theorem asNumber?_eq_some_iff {j : Json} {v : Float} : asNumber? j = some v ↔ j = .number v := by
  cases j <;> simp [asNumber?]

theorem asCategory?_eq_some_iff {j : Json} {category : Option String} :
    asCategory? j = some category ↔ CategoryValues [j] category := by
  constructor
  · intro read
    cases j with
    | null => cases read; exact .null
    | string text => cases read; exact .text text
    | _ => cases read
  · intro values
    cases values with
    | null => rfl
    | text => rfl

theorem category_iff {members : List (String × Json)} {category : Option String} :
    (∃ found, optional? "category" members = some found ∧
        (found.map asCategory?).getD (some none) = some category) ↔
      CategoryValues (valuesOf "category" members) category := by
  unfold optional? valuesOf
  generalize members.filter (·.1 == "category") = found
  rcases found with _ | ⟨⟨_, first⟩, _ | ⟨⟨_, second⟩, rest⟩⟩
  · constructor
    · rintro ⟨_, ⟨⟩, ⟨⟩⟩
      exact .missing
    · rintro ⟨⟩
      exact ⟨none, rfl, rfl⟩
  · rw [List.map_singleton, ← asCategory?_eq_some_iff]
    simp
  · constructor
    · rintro ⟨_, ⟨⟩, _⟩
    · intro values
      cases values

theorem ofMembers?_eq_some_iff {kind : String} {members : List (String × Json)} {r : Record}
    (kindOnce : valuesOf "kind" members = [.string kind]) :
    ofMembers? kind members = some r ↔ Describes (.object members) r := by
  constructor
  · intro read
    unfold ofMembers? at read
    split at read
    · simp only [Option.bind_eq_bind, Option.bind_eq_some_iff, Option.some.injEq,
        member?_eq_some_iff, asNumber?_eq_some_iff] at read
      obtain ⟨_, value, v, rfl, rfl⟩ := read
      exact .number kindOnce value
    · simp only [Option.bind_eq_bind, Option.bind_eq_some_iff, Option.some.injEq,
        member?_eq_some_iff, asNumber?_eq_some_iff, asString?_eq_some_iff] at read
      obtain ⟨_, id, _, name, _, value, found, category, _, rfl, _, rfl, _, rfl, c, values, rfl⟩ :=
        read
      exact .var kindOnce id name value (category_iff.mp ⟨found, category, values⟩)
    · simp only [Option.bind_eq_bind, Option.bind_eq_some_iff, Option.some.injEq,
        member?_eq_some_iff, asString?_eq_some_iff] at read
      obtain ⟨_, symbol, s, rfl, rfl⟩ := read
      exact .operator kindOnce symbol
    · cases read
  · intro describes
    have kind_eq {other : String} (once : valuesOf "kind" members = [.string other]) :
        kind = other := by
      rw [kindOnce] at once
      cases once
      rfl
    cases describes with
    | number once value =>
      obtain rfl := kind_eq once
      simp only [ofMembers?, member?_eq_some_iff.mpr value, asNumber?, Option.bind_eq_bind,
        Option.bind_some]
    | var once id name value values =>
      obtain rfl := kind_eq once
      obtain ⟨found, category, given⟩ := category_iff.mpr values
      simp only [ofMembers?, member?_eq_some_iff.mpr id, member?_eq_some_iff.mpr name,
        member?_eq_some_iff.mpr value, category, given, asNumber?, asString?,
        Option.bind_eq_bind, Option.bind_some]
    | operator once symbol =>
      obtain rfl := kind_eq once
      simp only [ofMembers?, member?_eq_some_iff.mpr symbol, asString?, Option.bind_eq_bind,
        Option.bind_some]

theorem ofRow?_eq_some_iff {kind : String} {values : List Json} {r : Record} :
    ofRow? kind values = some r ↔ Describes (.array (.string kind :: values)) r := by
  constructor
  · intro read
    unfold ofRow? at read
    split at read
    · obtain ⟨v, number, rfl⟩ := Option.map_eq_some_iff.mp read
      obtain rfl := asNumber?_eq_some_iff.mp number
      exact .numberRow
    · simp only [Option.bind_eq_bind, Option.bind_eq_some_iff, Option.some.injEq,
        asNumber?_eq_some_iff, asString?_eq_some_iff] at read
      obtain ⟨_, rfl, _, rfl, _, rfl, rfl⟩ := read
      exact .varRow .missing
    · simp only [Option.bind_eq_bind, Option.bind_eq_some_iff, Option.some.injEq,
        asNumber?_eq_some_iff, asString?_eq_some_iff, asCategory?_eq_some_iff] at read
      obtain ⟨_, rfl, _, rfl, _, rfl, _, values, rfl⟩ := read
      exact .varRow values
    · obtain ⟨s, symbol, rfl⟩ := Option.map_eq_some_iff.mp read
      obtain rfl := asString?_eq_some_iff.mp symbol
      exact .operatorRow
    · cases read
  · intro describes
    cases describes with
    | numberRow => rfl
    | varRow values => cases values <;> rfl
    | operatorRow => rfl

theorem ofJson?_eq_some_iff {j : Json} {r : Record} : ofJson? j = some r ↔ Describes j r := by
  constructor
  · intro read
    unfold ofJson? at read
    split at read
    · next members =>
      simp only [Option.bind_eq_bind, Option.bind_eq_some_iff, member?_eq_some_iff,
        asString?_eq_some_iff] at read
      obtain ⟨_, once, kind, rfl, found⟩ := read
      exact (ofMembers?_eq_some_iff once).mp found
    · simp only [Option.bind_eq_bind, Option.bind_eq_some_iff, asString?_eq_some_iff] at read
      obtain ⟨kind, rfl, found⟩ := read
      exact ofRow?_eq_some_iff.mp found
    · cases read
  · intro describes
    have ofObject {members : List (String × Json)} {kind : String}
        (once : valuesOf "kind" members = [.string kind])
        (describes : Describes (.object members) r) : ofJson? (.object members) = some r := by
      simp only [ofJson?, member?_eq_some_iff.mpr once, asString?, Option.bind_eq_bind,
        Option.bind_some]
      exact (ofMembers?_eq_some_iff once).mpr describes
    cases describes with
    | number once value => exact ofObject once (.number once value)
    | var once id name value values => exact ofObject once (.var once id name value values)
    | operator once symbol => exact ofObject once (.operator once symbol)
    | numberRow => exact ofRow?_eq_some_iff.mpr .numberRow
    | varRow values => exact ofRow?_eq_some_iff.mpr (.varRow values)
    | operatorRow => exact ofRow?_eq_some_iff.mpr .operatorRow

/-! ## Tags of records -/

def IsFinite : Record → Prop
  | number v => v.isFinite = true
  | var _ _ v _ => v.isFinite = true
  | operator _ => True

theorem isFinite_of_describes {depth : Nat} {j : Json} {r : Record} (fits : Json.Fits depth j)
    (h : Describes j r) : r.IsFinite := by
  have member {members : List (String × Json)} {v : Float}
      (fits : Json.Fits depth (.object members))
      (once : valuesOf "value" members = [.number v]) : v.isFinite = true := by
    have inside : .number v ∈ valuesOf "value" members := once ▸ List.mem_singleton_self _
    obtain ⟨⟨name, _⟩, found, rfl⟩ := List.mem_map.mp inside
    cases fits with
    | object each => cases each _ (List.mem_filter.mp found).1 with | number finite => exact finite
  have item {items : List Json} {v : Float} (fits : Json.Fits depth (.array items))
      (inside : .number v ∈ items) : v.isFinite = true := by
    cases fits with
    | array each => cases each _ inside with | number finite => exact finite
  cases h with
  | number _ value => exact member fits value
  | var _ _ _ value _ => exact member fits value
  | operator => trivial
  | numberRow => exact item fits (by simp)
  | varRow => exact item fits (by simp)
  | operatorRow => trivial

end Record

def Operator.IsSymbol (text : String) : Prop := ∃ op : Operator, text = String.singleton op.symbol

theorem Operator.ofText?_eq_none_iff {text : String} : ofText? text = none ↔ ¬IsSymbol text := by
  simp only [Option.eq_none_iff_forall_ne_some, ne_eq, ofText?_eq_some_iff, IsSymbol, not_exists]

namespace Record

theorem toToken_eq_ok_iff {r : Record} (finite : r.IsFinite) {t : Token} :
    r.toToken = .ok t ↔ ofToken t = r := by
  constructor
  · intro made
    cases r with
    | number v =>
      cases made
      exact congrArg number (Amount.val_ofFloat_of_isFinite finite)
    | var id name v category =>
      cases made
      exact congrArg (var id name · category) (Amount.val_ofFloat_of_isFinite finite)
    | operator symbol =>
      rw [toToken] at made
      split at made
      · next op found =>
        cases made
        rw [Operator.ofText?_eq_some_iff.mp found]
        rfl
      · cases made
  · rintro rfl
    exact toToken_ofToken t

theorem toToken_eq_error_iff {r : Record} {fault : StorageFault} :
    r.toToken = .error fault ↔
      ∃ symbol, r = operator symbol ∧ ¬Operator.IsSymbol symbol ∧
        fault = .unknownOperator symbol := by
  constructor
  · intro refused
    cases r with
    | number v => cases refused
    | var id name v category => cases refused
    | operator symbol =>
      rw [toToken] at refused
      split at refused
      · cases refused
      · next unknown =>
        cases refused
        exact ⟨symbol, rfl, Operator.ofText?_eq_none_iff.mp unknown, rfl⟩
  · rintro ⟨symbol, rfl, unknown, rfl⟩
    rw [toToken, Operator.ofText?_eq_none_iff.mpr unknown]

theorem exists_toToken_iff {r : Record} :
    (∃ t, r.toToken = .ok t) ↔ ∀ s, r = operator s → Operator.IsSymbol s := by
  constructor
  · rintro ⟨t, made⟩ symbol rfl
    by_contra unknown
    have refused := toToken_eq_error_iff.mpr ⟨symbol, rfl, unknown, rfl⟩
    cases made.symm.trans refused
  · intro known
    cases made : r.toToken with
    | ok t => exact ⟨t, rfl⟩
    | error fault =>
      obtain ⟨symbol, rfl, unknown, _⟩ := toToken_eq_error_iff.mp made
      exact (unknown (known symbol rfl)).elim

end Record

namespace Formula

def Lists (text : String) (records : List Record) : Prop :=
  ∃ items, Json.Denotes Json.maxDepth text.toList (.array items) ∧
    List.Forall₂ Record.Describes items records

theorem mapM_ofJson?_eq_some_iff {items : List Json} {records : List Record} :
    items.mapM Record.ofJson? = some records ↔ List.Forall₂ Record.Describes items records := by
  induction items generalizing records with
  | nil => simp
  | cons j items ih =>
    simp only [List.mapM_cons, Option.bind_eq_bind, Option.bind_eq_some_iff, Option.pure_def,
      Option.some.injEq, Record.ofJson?_eq_some_iff, ih, List.forall₂_cons_left_iff]
    constructor
    · rintro ⟨r, first, rest, others, rfl⟩
      exact ⟨r, rest, first, others, rfl⟩
    · rintro ⟨r, rest, first, others, rfl⟩
      exact ⟨r, first, rest, others, rfl⟩

theorem records?_eq_some_iff {text : String} {records : List Record} :
    records? text = some records ↔ Lists text records := by
  unfold records? Lists
  simp only [← Json.read?_eq_some_iff, ← mapM_ofJson?_eq_some_iff]
  constructor
  · intro read
    split at read
    · next items found => exact ⟨items, found, read⟩
    · cases read
  · rintro ⟨items, found, read⟩
    rw [found]
    exact read

theorem isFinite_of_forall₂ {depth : Nat} {items : List Json} {records : List Record}
    (describe : List.Forall₂ Record.Describes items records)
    (fits : ∀ j ∈ items, Json.Fits depth j) : ∀ r ∈ records, r.IsFinite := by
  induction describe with
  | nil => exact List.forall_mem_nil _
  | cons describes _ ih =>
    obtain ⟨first, others⟩ := List.forall_mem_cons.mp fits
    exact List.forall_mem_cons.mpr ⟨Record.isFinite_of_describes first describes, ih others⟩

theorem Lists.isFinite {text : String} {records : List Record} (h : Lists text records) :
    ∀ r ∈ records, r.IsFinite := by
  obtain ⟨items, denotes, describe⟩ := h
  cases denotes.fits with
  | array each => exact isFinite_of_forall₂ describe each

theorem mapM_toToken_eq_ok_iff {records : List Record} (finite : ∀ r ∈ records, r.IsFinite)
    {f : Formula} : records.mapM Record.toToken = .ok f ↔ f.map Record.ofToken = records := by
  induction records generalizing f with
  | nil =>
    rw [List.mapM_nil, List.map_eq_nil_iff]
    exact ⟨fun made => (Except.ok.inj made).symm, fun none => congrArg Except.ok none.symm⟩
  | cons r records ih =>
    obtain ⟨first, others⟩ := List.forall_mem_cons.mp finite
    rw [List.mapM_cons, List.map_eq_cons_iff]
    simp only [← Record.toToken_eq_ok_iff first, ← ih others]
    cases r.toToken with
    | error fault => simp [bind, Except.bind]
    | ok t =>
      cases records.mapM Record.toToken with
      | error fault => simp [bind, Except.bind]
      | ok g => simp [bind, Except.bind, pure, Except.pure, eq_comm]

theorem mapM_toToken_eq_error_iff {records : List Record} {fault : StorageFault} :
    records.mapM Record.toToken = .error fault ↔
      ∃ before symbol after, records = before ++ .operator symbol :: after ∧
        (∀ s, .operator s ∈ before → Operator.IsSymbol s) ∧ ¬Operator.IsSymbol symbol ∧
        fault = .unknownOperator symbol := by
  constructor
  · intro refused
    induction records with
    | nil => cases refused
    | cons r records ih =>
      rw [List.mapM_cons] at refused
      cases made : r.toToken with
      | error cause =>
        rw [made] at refused
        cases refused
        obtain ⟨symbol, rfl, unknown, same⟩ := Record.toToken_eq_error_iff.mp made
        exact ⟨[], symbol, records, rfl, fun s member => absurd member List.not_mem_nil, unknown,
          same⟩
      | ok t =>
        cases rest : records.mapM Record.toToken with
        | ok f =>
          rw [made, rest] at refused
          cases refused
        | error cause =>
          rw [made, rest] at refused
          cases refused
          obtain ⟨before, symbol, after, rfl, known, unknown, same⟩ := ih rest
          refine ⟨r :: before, symbol, after, rfl, fun s member => ?_, unknown, same⟩
          rcases List.mem_cons.mp member with this | earlier
          · exact Record.exists_toToken_iff.mp ⟨t, made⟩ s this.symm
          · exact known s earlier
  · rintro ⟨before, symbol, after, rfl, known, unknown, rfl⟩
    have refused := Record.toToken_eq_error_iff.mpr ⟨symbol, rfl, unknown, rfl⟩
    induction before with
    | nil =>
      rw [List.nil_append, List.mapM_cons, refused]
      rfl
    | cons r before ih =>
      obtain ⟨t, made⟩ := Record.exists_toToken_iff.mpr fun s same =>
        known s (same ▸ List.mem_cons_self)
      rw [List.cons_append, List.mapM_cons, made,
        ih fun s member => known s (List.mem_cons_of_mem r member)]
      rfl

theorem ofStored_of_lists {text : String} {records : List Record} (h : Lists text records) :
    ofStored text = records.mapM Record.toToken := by
  rw [ofStored, records?_eq_some_iff.mpr h]

theorem ofStored_eq_malformed_iff {text : String} :
    ofStored text = .error .malformed ↔ ∀ records, ¬Lists text records := by
  constructor
  · intro malformed records lists
    rw [ofStored_of_lists lists] at malformed
    obtain ⟨_, symbol, _, _, _, _, same⟩ := mapM_toToken_eq_error_iff.mp malformed
    cases same
  · intro none
    have unread : records? text = .none :=
      Option.eq_none_iff_forall_ne_some.mpr fun records read =>
        none records (records?_eq_some_iff.mp read)
    rw [ofStored, unread]

theorem exists_ofStored_iff {text : String} {records : List Record} (h : Lists text records) :
    (∃ f, ofStored text = .ok f) ↔
      ∀ symbol, .operator symbol ∈ records → Operator.IsSymbol symbol := by
  rw [ofStored_of_lists h]
  constructor
  · rintro ⟨f, read⟩ symbol member
    rw [← (mapM_toToken_eq_ok_iff h.isFinite).mp read] at member
    obtain ⟨t, _, made⟩ := List.mem_map.mp member
    exact Record.exists_toToken_iff.mp ⟨t, Record.toToken_ofToken t⟩ symbol made
  · intro known
    cases read : records.mapM Record.toToken with
    | ok f => exact ⟨f, rfl⟩
    | error fault =>
      obtain ⟨before, symbol, after, rfl, _, unknown, _⟩ := mapM_toToken_eq_error_iff.mp read
      exact (unknown (known symbol (by simp))).elim

end Formula

namespace Editor

variable {σ : Type} [Store σ]

theorem load_of_error {e : Editor σ} {s : σ} {fault : StorageFault} (store : e.store = some s)
    (failed : Store.load s = .error fault) :
    e.load = (some fault, e.note (.notReloaded fault)) := by
  have told : e.load.1 = some fault := (e.load_failed_iff fault).mpr ⟨s, store, failed⟩
  exact Prod.ext told (load_of_failure told)

end Editor

namespace Formula

/-- A text that is no array of well-formed records is malformed, whatever symbols are in it. One
that is gives the tags whose records they are, all of them and with their finite values, or else
names the first symbol that is no operator. An editor whose store gives it such a fault, or whose
file holds such a text, keeps its formula and its session. -/
theorem loaded_whole_or_refused (text : String) :
    (ofStored text = .error .malformed ↔ ∀ records, ¬Lists text records) ∧
    (∀ records, Lists text records →
      ((∃ f, ofStored text = .ok f) ↔
        ∀ symbol, .operator symbol ∈ records → Operator.IsSymbol symbol) ∧
      (∀ f, ofStored text = .ok f ↔ f.map Record.ofToken = records) ∧
      (∀ r ∈ records, r.IsFinite) ∧
      (∀ fault, ofStored text = .error fault ↔
        ∃ before symbol after, records = before ++ .operator symbol :: after ∧
          (∀ s, .operator s ∈ before → Operator.IsSymbol s) ∧ ¬Operator.IsSymbol symbol ∧
          fault = .unknownOperator symbol)) ∧
    (∀ (σ : Type) [Store σ] (e : Editor σ) (s : σ) (fault : StorageFault), e.store = some s →
      Store.load s = (ofStored text).map some → ofStored text = .error fault →
      e.load = (some fault, e.note (.notReloaded fault)) ∧ e.load.2.formula = e.formula ∧
        e.load.2.session = e.session) ∧
    ∀ (e : Editor FormulaFile) (s : FormulaFile) (fault : StorageFault), e.store = some s →
      s.disk.readText s.path = .ok text → ofStored text = .error fault →
      e.load = (some fault, e.note (.notReloaded fault)) ∧ e.load.2.formula = e.formula ∧
        e.load.2.session = e.session := by
  have kept (σ : Type) [Store σ] (e : Editor σ) (s : σ) (fault : StorageFault)
      (store : e.store = some s) (held : Store.load s = (ofStored text).map some)
      (refused : ofStored text = .error fault) :
      e.load = (some fault, e.note (.notReloaded fault)) ∧ e.load.2.formula = e.formula ∧
        e.load.2.session = e.session := by
    rw [refused] at held
    rw [Editor.load_of_error store held]
    exact ⟨rfl, rfl, rfl⟩
  refine ⟨ofStored_eq_malformed_iff, fun records lists =>
    ⟨exists_ofStored_iff lists, ?_, lists.isFinite, ?_⟩, kept, ?_⟩
  · intro f
    rw [ofStored_of_lists lists]
    exact mapM_toToken_eq_ok_iff lists.isFinite
  · intro fault
    rw [ofStored_of_lists lists]
    exact mapM_toToken_eq_error_iff
  · intro e s fault store read refused
    exact kept FormulaFile e s fault store (FormulaFile.load_of_readText read) refused

theorem percent_refused_under_rename :
    let text := "[[\"operator\",\"+\"],[\"operator\",\"%\"],[\"operator\",\"++\"]]"
    let s : FormulaFile := ⟨"/formula.json", (Disk.withFolder []).put ["formula.json"]
      (.file text.toUTF8)⟩
    let e : Editor FormulaFile :=
      { Editor.new ⟨0, 0⟩ none (some s) with
        formula := [.number .zero]
        session := ⟨"", some 0, some 0, "tax"⟩ }
    Lists text [.operator "+", .operator "%", .operator "++"] ∧
      ofStored text = .error (.unknownOperator "%") ∧ e.load.1 = some (.unknownOperator "%") ∧
      e.load.2.formula = e.formula ∧ e.load.2.session = e.session := by
  intro text s e
  have lists : Lists text [.operator "+", .operator "%", .operator "++"] :=
    records?_eq_some_iff.mp (by decide +kernel)
  obtain ⟨_, whole, _, kept⟩ := loaded_whole_or_refused text
  obtain ⟨_, _, _, refused⟩ := whole _ lists
  have told : ofStored text = .error (.unknownOperator "%") := by
    refine (refused _).mpr ⟨[.operator "+"], "%", [.operator "++"], rfl, ?_, ?_, rfl⟩
    · intro symbol member
      cases List.mem_singleton.mp member
      exact ⟨.arithmetic .add, rfl⟩
    · exact Operator.ofText?_eq_none_iff.mp (by decide +kernel)
  have read : s.disk.readText s.path = .ok text := by decide +kernel
  obtain ⟨loaded, same⟩ := kept e s _ rfl read told
  exact ⟨lists, told, congrArg Prod.fst loaded, same⟩

/-- A fault of form hides the symbol before it. -/
example : ofStored "[[\"operator\",\"%\"],[\"number\"]]" = .error .malformed := by decide +kernel

end Formula

end TagFormula
