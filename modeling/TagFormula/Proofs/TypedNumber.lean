import TagFormula.App.Run
import TagFormula.Proofs.LiteralText
import TagFormula.Proofs.TypedText

/-!
A number typed or pasted with an equals sign after it. The literals allow a sign in the power of
ten, while typing cuts the text at every sign. So a literal without a sign becomes the number it
stands for, and that number is on display; one with a sign in its power is cut in two, and the part
before the sign is no number. The same goes for displayed results that are pasted back.
-/
namespace TagFormula

open Number.Literal (isSign isPart)

namespace Typing

/-! ## What a literal is cut into -/

theorem not_cut {p : Char → Bool} {c : Char} (holds : p c = true) (equals : p '=' = false)
    (symbols : ∀ op : Operator, p op.symbol = false) : cut? c = none := by
  refine cut?_eq_none_iff.mpr ⟨?_, fun op => ?_⟩
  · rintro rfl
    exact Bool.false_ne_true (equals.symm.trans holds)
  · rintro rfl
    exact Bool.false_ne_true ((symbols op).symm.trans holds)

theorem isPlain_of_isPart {c : Char} (part : isPart c = true) : isPlain c = true := by
  refine isPlain_iff.mpr ⟨?_, not_cut part (by decide) fun op => ?_⟩
  · rintro rfl
    exact absurd part (by decide)
  · rcases op with (_ | _ | _ | _ | _) | _ | _ <;> decide

theorem isPlain_of_isBlank {c : Char} (blank : Text.isBlank c = true) (noTab : c ≠ '\t') :
    isPlain c = true := by
  refine isPlain_iff.mpr ⟨noTab, not_cut blank (by decide) fun op => ?_⟩
  rcases op with (_ | _ | _ | _ | _) | _ | _ <;> decide

theorem actions_withoutTabs (text : String) :
    actions (text ++ "=") = actionsFrom false [] ((withoutTabs text).toList ++ ['=']) := by
  have equals : (text ++ "=").toList.filter (· ≠ '\t') = (withoutTabs text).toList ++ ['='] := by
    rw [String.toList_append, List.filter_append, toList_withoutTabs]
    rfl
  rw [actions, ← actionsFrom_filter, equals]

theorem exists_plain_around {x : String} {d : Number.Decimal}
    (literal : Number.Literal.decimal? (Text.trimmed x.toList) = some d) :
    ∃ as bs, (withoutTabs x).toList = as ++ Text.trimmed x.toList ++ bs ∧
      ∀ c ∈ as ++ bs, isPlain c = true ∧ Text.isBlank c = true := by
  obtain ⟨as, bs, around, left, right⟩ := Text.exists_blanks_around x.toList
  have kept : (Text.trimmed x.toList).filter (· ≠ '\t') = Text.trimmed x.toList := by
    refine List.filter_eq_self.mpr fun c member => decide_eq_true ?_
    rintro rfl
    cases Number.Literal.isBlank_of_literal literal _ member
  refine ⟨as.filter (· ≠ '\t'), bs.filter (· ≠ '\t'), ?_, fun c member => ?_⟩
  · rw [toList_withoutTabs, around, List.filter_append, List.filter_append, ← around, kept]
  · rw [← List.filter_append] at member
    obtain ⟨inside, noTab⟩ := List.mem_filter.mp member
    have blank := (List.mem_append.mp inside).elim (left c) (right c)
    exact ⟨isPlain_of_isBlank blank (of_decide_eq_true noTab), blank⟩

theorem read?_withoutTabs {x : String} {v : Float} (reads : Number.read? x = some v) :
    Number.read? (Text.trim (withoutTabs x)) = some v := by
  obtain ⟨d, literal, value⟩ := Option.bind_eq_some_iff.mp reads
  have inked := Number.Literal.isBlank_of_literal literal
  obtain ⟨as, bs, around, blanks⟩ := exists_plain_around literal
  have trimmed : (Text.trim (withoutTabs x)).toList = Text.trimmed x.toList := by
    rw [Text.trim, String.toList_ofList, around, Text.trimmed_between
      (fun c member => (blanks c (List.mem_append_left bs member)).2) inked
      (fun c member => (blanks c (List.mem_append_right as member)).2)]
  rw [← trimmed] at literal
  rw [Number.read?_of_decimal? literal, value]

theorem withoutTabs_of_inked {x : String} (inked : ∀ c ∈ x.toList, Text.isBlank c = false) :
    withoutTabs x = x := by
  have kept : x.toList.filter (· ≠ '\t') = x.toList := by
    refine List.filter_eq_self.mpr fun c member => decide_eq_true ?_
    rintro rfl
    cases inked _ member
  rw [withoutTabs, kept, String.ofList_toList]

theorem actions_of_uncut {x : String} (plain : ∀ c ∈ (withoutTabs x).toList, isPlain c = true) :
    actions (x ++ "=") = [.type (withoutTabs x), .evaluate] := by
  have equals : cut? '=' = some .evaluate := rfl
  rw [actions_withoutTabs, actionsFrom_cut false plain equals [], String.ofList_toList]
  rfl

theorem actions_of_cut {x : String} {before after : List Char} {op : Operator}
    (whole : (withoutTabs x).toList = before ++ op.symbol :: after)
    (left : ∀ c ∈ before, isPlain c = true) (right : ∀ c ∈ after, isPlain c = true) :
    actions (x ++ "=") =
      [.type (String.ofList before), .operator op.symbol, .type (String.ofList after),
        .evaluate] := by
  have equals : cut? '=' = some .evaluate := rfl
  have operator : cut? op.symbol = some (.operator op.symbol) := by
    rcases op with (_ | _ | _ | _ | _) | _ | _ <;> rfl
  rw [actions_withoutTabs, whole, List.append_assoc, List.cons_append,
    actionsFrom_cut false left operator, actionsFrom_cut true right equals []]
  rfl

theorem mem_withoutTabs_of_isSign {x : String} {c : Char} (member : c ∈ x.toList)
    (sign : isSign c = true) : c ∈ (withoutTabs x).toList := by
  rw [toList_withoutTabs]
  refine List.mem_filter.mpr ⟨member, decide_eq_true ?_⟩
  rintro rfl
  cases sign

theorem exists_operator_of_isSign {c : Char} (sign : isSign c = true) :
    ∃ op : Operator, c = op.symbol := by
  rcases of_decide_eq_true sign with rfl | rfl
  · exact ⟨.arithmetic .add, rfl⟩
  · exact ⟨.arithmetic .subtract, rfl⟩

theorem not_isBlankText_of_mem {cs : List Char} {c : Char} (member : c ∈ cs)
    (inked : Text.isBlank c = false) : ¬ Text.isBlankText (String.ofList cs) = true := by
  intro blank
  rw [Text.isBlankText, String.toList_ofList] at blank
  rw [List.all_eq_true.mp blank c member] at inked
  cases inked

theorem read?_of_blanks_before {as cs : List Char} (blanks : ∀ c ∈ as, Text.isBlank c = true)
    (inked : ∀ c ∈ cs, Text.isBlank c = false) (unread : Number.Literal.decimal? cs = none) :
    Number.read? (String.ofList (as ++ cs)) = none := by
  have trimmed := Text.trimmed_between blanks inked (List.forall_mem_nil _)
  rw [List.append_nil] at trimmed
  rw [Number.read?, String.toList_ofList, trimmed, unread]
  rfl

theorem quiet_around {as cs bs : List Char}
    (blanks : ∀ c ∈ as ++ bs, isPlain c = true ∧ Text.isBlank c = true)
    (parts : ∀ c ∈ cs, isPart c = true) :
    ∀ c ∈ as ++ cs ++ bs, isPlain c = true ∧ isSign c = false := by
  intro c member
  have blank (outside : c ∈ as ++ bs) : isPlain c = true ∧ isSign c = false := by
    obtain ⟨plain, blank⟩ := blanks c outside
    refine ⟨plain, Bool.eq_false_iff.mpr fun sign => ?_⟩
    rw [Number.Literal.isBlank_of_isSign sign] at blank
    cases blank
  rcases List.mem_append.mp member with front | right
  · rcases List.mem_append.mp front with left | inside
    · exact blank (List.mem_append_left bs left)
    · exact ⟨isPlain_of_isPart (parts c inside), Number.Literal.isSign_of_isPart (parts c inside)⟩
  · exact blank (List.mem_append_right as right)

theorem cut_at_sign {x : String} {as b e bs : List Char} {op : Operator}
    (around : (withoutTabs x).toList = as ++ (b ++ op.symbol :: e) ++ bs)
    (blanks : ∀ c ∈ as ++ bs, isPlain c = true ∧ Text.isBlank c = true)
    (parts : ∀ c ∈ b ++ e, isPart c = true) (first : b ≠ []) (last : e ≠ [])
    (unread : Number.Literal.decimal? b = none) :
    ∃ before after, withoutTabs x = before ++ String.singleton op.symbol ++ after ∧
      ¬ Text.isBlankText before = true ∧ ¬ Text.isBlankText after = true ∧
      Number.read? before = none ∧
      actions (x ++ "=") = [.type before, .operator op.symbol, .type after, .evaluate] := by
  obtain ⟨front, back⟩ := List.forall_mem_append.mp parts
  have whole : (withoutTabs x).toList = (as ++ b) ++ op.symbol :: (e ++ bs) := by
    rw [around]
    simp only [List.append_assoc, List.cons_append]
  have left : ∀ c ∈ as ++ b, isPlain c = true := fun c member =>
    (quiet_around blanks front c (List.mem_append_left bs member)).1
  have right : ∀ c ∈ e ++ bs, isPlain c = true := by
    intro c member
    refine (quiet_around blanks back c ?_).1
    rw [List.append_assoc]
    exact List.mem_append_right as member
  obtain ⟨c, inB⟩ := List.exists_mem_of_ne_nil b first
  obtain ⟨d, inE⟩ := List.exists_mem_of_ne_nil e last
  have inked := fun c member => Number.Literal.isBlank_of_isPart (front c member)
  refine ⟨String.ofList (as ++ b), String.ofList (e ++ bs), String.toList_inj.mp (by simp [whole]),
    not_isBlankText_of_mem (List.mem_append_right as inB) (inked c inB),
    not_isBlankText_of_mem (List.mem_append_left bs inE)
      (Number.Literal.isBlank_of_isPart (back d inE)), ?_, actions_of_cut whole left right⟩
  exact read?_of_blanks_before (fun c member => (blanks c (List.mem_append_left bs member)).2) inked
    unread

/-- The text of a literal that begins with no sign is typed as it is, or there is a sign in its
power of ten, where it is cut, and what stands before that sign is no literal. -/
theorem actions_of_literal {x : String} {v : Float} (reads : Number.read? x = some v)
    (leading : ∀ c ∈ (Text.trimmed x.toList).head?, isSign c = false) :
    (∀ c ∈ x.toList, isSign c = false) ∧
        actions (x ++ "=") = [.type (withoutTabs x), .evaluate] ∨
      ∃ op : Operator, isSign op.symbol = true ∧ op.symbol ∈ x.toList ∧ ∃ before after,
        withoutTabs x = before ++ String.singleton op.symbol ++ after ∧
        ¬ Text.isBlankText before = true ∧ ¬ Text.isBlankText after = true ∧
        Number.read? before = none ∧
        actions (x ++ "=") = [.type before, .operator op.symbol, .type after, .evaluate] := by
  obtain ⟨d, literal, _⟩ := Option.bind_eq_some_iff.mp reads
  obtain ⟨as, bs, around, blanks⟩ := exists_plain_around literal
  have cases := Number.Literal.sign_cases literal
  rw [Number.Literal.takeSign_of_unsigned leading] at cases
  rcases cases with parts | ⟨b, s, e, same, sign, parts, first, last, unread⟩
  · left
    have each := quiet_around blanks parts
    rw [← around] at each
    refine ⟨fun c member => Bool.eq_false_iff.mpr fun sign => ?_,
      actions_of_uncut fun c member => (each c member).1⟩
    have unsigned := (each c (mem_withoutTabs_of_isSign member sign)).2
    exact Bool.false_ne_true (unsigned.symm.trans sign)
  · right
    obtain ⟨op, rfl⟩ := exists_operator_of_isSign sign
    have same : Text.trimmed x.toList = b ++ op.symbol :: e := same
    rw [same] at around
    refine ⟨op, sign, ?_, cut_at_sign around blanks parts first last unread⟩
    have inside : op.symbol ∈ (withoutTabs x).toList := by
      rw [around]
      simp
    rw [toList_withoutTabs] at inside
    exact (List.mem_filter.mp inside).1

end Typing

namespace Editor

variable {σ : Type}

/-! ## The steps of typing -/

theorem candidates_type {e : Editor σ} {text : String} (bare : (e.enter text).candidates = []) :
    (e.type text).candidates = [] := by
  obtain ⟨formula, session, lookup, store, warnings, ids, notices⟩ := e
  cases lookup with
  | none =>
    unfold type
    simp only
    split
    · rfl
    · rfl
  | some l =>
    unfold type
    simp only
    split
    · rfl
    · exact bare

theorem rawCandidates_clearEntry (e : Editor σ) : e.clearEntry.rawCandidates = [] := by
  obtain ⟨formula, session, lookup, store, warnings, ids, notices⟩ := e
  cases lookup <;> rfl

variable [Store σ]

theorem apply_type (e : Editor σ) (text : String) :
    (e.apply (.type text)).2.formula = e.formula ∧
      (e.apply (.type text)).2.session.entry = text ∧
      ((e.enter text).candidates = [] → (e.apply (.type text)).2.candidates = []) := by
  have typed : (e.apply (.type text)).2 =
      { (e.note (.action (.type text))).type text with warnings := [] } := rfl
  obtain ⟨formula, session, _⟩ := e.perform_type_frame text
  have same : (e.perform (.act (.type text))).2 = (e.apply (.type text)).2 := rfl
  rw [same] at formula session
  refine ⟨formula, congrArg Session.entry session, fun bare => ?_⟩
  have after := @candidates_type σ (e.note (.action (.type text))) text bare
  rw [typed]
  generalize (e.note (.action (.type text))).type text = d at after ⊢
  exact after

theorem rawCandidates_apply_operator (e : Editor σ) (op : Operator) :
    (e.apply (.operator op.symbol)).2.rawCandidates = [] := by
  have carried (d : Editor σ) :
      d.carryOut (.operator op.symbol) = deliver [] (d.typeOperator op) := by
    simp only [carryOut, Operator.ofChar?_symbol]
  rw [apply, carried]
  exact rawCandidates_clearEntry _

end Editor

namespace App

variable {σ : Type}

variable [Store σ]

theorem apply_evaluate_shows (a : App σ) {v : Float} {trace : Trace}
    (value : (a.editor.apply .evaluate).2.formula.trace = .ok (v, trace)) :
    (a.apply .evaluate).result = Number.display v ∧ (a.apply .evaluate).error = "" := by
  let noted := a.editor.note (.action .evaluate)
  have committed : noted.commit.formula.trace = .ok (v, trace) := by
    rw [← value, Editor.formula_apply_eq_commit _ (.inr rfl)]
    rw [noted.appends_commit.formula, a.editor.appends_commit.formula]
    rfl
  have told : noted.evaluate.1 = .result v trace := by
    unfold Editor.evaluate
    simp only [committed]
  have shown : a.apply .evaluate =
      { (noted.evaluate.2.warnings.map Effect.warning).foldl absorb
          ({ a with editor := { noted.evaluate.2 with warnings := [] } }.absorb noted.evaluate.1)
        with wantsFocus := true } := rfl
  rw [shown, told]
  generalize noted.evaluate.2 = d
  exact (foldl_absorb_warnings _ d.warnings).imp_right And.left

def Shows (a : App σ) (v : Float) : Prop :=
  a.editor.formula = [.ofFloat v] ∧ a.result = Number.display v ∧ a.error = ""

omit [Store σ] in
theorem trace_ofFloat {v : Float} (finite : v.isFinite = true) :
    ∃ trace, Formula.trace [.ofFloat v] = .ok (v, trace) := by
  have number (n : Amount) : ∃ trace, Formula.trace [.number n] = .ok (n.val, trace) := ⟨_, rfl⟩
  obtain ⟨trace, value⟩ := number (Amount.ofFloat v)
  rw [Amount.val_ofFloat_of_isFinite finite] at value
  exact ⟨trace, value⟩

theorem shows_of_literal {a : App σ} {x : String} {v : Float} (empty : a.editor.formula = [])
    (bare : (a.editor.enter x).candidates = []) (reads : Number.read? (Text.trim x) = some v) :
    Shows ((a.apply (.type x)).apply .evaluate) v := by
  obtain ⟨formula, entry, candidates⟩ := a.editor.apply_type x
  rw [← editor_apply] at formula entry candidates
  generalize a.apply (.type x) = typed at *
  have tag : (typed.editor.apply .evaluate).2.formula = [.ofFloat v] := by
    rw [Editor.formula_apply_commit _ (.inr rfl), formula, empty, List.nil_append,
      Editor.committed_of_literal (entry.symm ▸ reads), Editor.firstOr, candidates bare]
  obtain ⟨trace, value⟩ := trace_ofFloat (Number.isFinite_of_read? reads)
  rw [← tag] at value
  exact ⟨(congrArg Editor.formula (typed.editor_apply .evaluate)).trans tag,
    typed.apply_evaluate_shows value⟩

theorem formula_of_cut {a typed ended rest : App σ} (empty : a.editor.formula = [])
    {before after : String} {op : Operator} (first : a.apply (.type before) = typed)
    (second : typed.apply (.operator op.symbol) = ended)
    (third : ended.apply (.type after) = rest) (left : ¬ Text.isBlankText before = true)
    (right : ¬ Text.isBlankText after = true) :
    (rest.apply .evaluate).editor.formula =
      [Editor.tokenFor typed.editor.lookup typed.editor.ids before, .operator op,
        Editor.tokenFor rest.editor.lookup rest.editor.ids after] := by
  have begun := a.editor.apply_type before
  rw [← editor_apply, empty, first] at begun
  obtain ⟨none, entry, _⟩ := begun
  have cut : ended.editor.formula =
      [Editor.tokenFor typed.editor.lookup typed.editor.ids before, .operator op] := by
    rw [← second, editor_apply, Editor.formula_apply_operator, none, Editor.ended, entry,
      if_neg left]
    rfl
  have bare : ended.editor.rawCandidates = [] := by
    rw [← second, editor_apply]
    exact typed.editor.rawCandidates_apply_operator op
  have continued := ended.editor.apply_type after
  rw [← editor_apply, cut, third] at continued
  obtain ⟨both, entry, candidates⟩ := continued
  rw [editor_apply, Editor.formula_apply_commit _ (.inr rfl), both,
    Editor.committed_of_full (entry.symm ▸ right), Editor.firstOr,
    candidates (Editor.candidates_of_bare bare), entry]
  rfl

/-! ## Literals and an equals sign -/

/-- What a text comes to that is cut at a sign: what stands before the sign is no number, and it
becomes a tag, as do the operator and what stands after it. -/
def IsCut (a : App σ) (x : String) : Prop :=
  ∃ (before : String) (op : Operator) (after : String),
    Typing.withoutTabs x = before ++ String.singleton op.symbol ++ after ∧
    isSign op.symbol = true ∧ Number.read? before = none ∧
    let typed := a.apply (.type before)
    let rest := (typed.apply (.operator op.symbol)).apply (.type after)
    (a.typeText (x ++ "=")).editor.formula =
      [Editor.tokenFor typed.editor.lookup typed.editor.ids before, .operator op,
        Editor.tokenFor rest.editor.lookup rest.editor.ids after]

theorem typed_literal {a : App σ} (empty : a.editor.formula = []) {x : String} {v : Float}
    (reads : Number.read? x = some v)
    (leading : ∀ c ∈ (Text.trimmed x.toList).head?, isSign c = false)
    (bare : (a.editor.enter (Typing.withoutTabs x)).candidates = []) :
    ((∀ c ∈ x.toList, isSign c = false) → (a.typeText (x ++ "=")).Shows v) ∧
      ((∃ c ∈ x.toList, isSign c = true) → a.IsCut x) := by
  rcases Typing.actions_of_literal reads leading with
    ⟨unsigned, uncut⟩ | ⟨op, sign, member, before, after, whole, left, right, unread, cut⟩
  · constructor
    · intro _
      rw [typeText, uncut]
      exact shows_of_literal empty bare (Typing.read?_withoutTabs reads)
    · rintro ⟨c, member, sign⟩
      exact (Bool.false_ne_true ((unsigned c member).symm.trans sign)).elim
  · constructor
    · intro unsigned
      exact (Bool.false_ne_true ((unsigned _ member).symm.trans sign)).elim
    · intro _
      refine ⟨before, op, after, whole, sign, unread, ?_⟩
      rw [typeText, cut]
      exact formula_of_cut empty rfl rfl rfl left right

/-- With an empty formula and no candidates for the text, a literal that begins with no sign and an
equals sign after it: without a sign in its power of ten it becomes the number it stands for, and
that is displayed; with one it is cut there. A positive finite number that is displayed and pasted
back fares the same. -/
theorem typed_number (a : App σ) (empty : a.editor.formula = []) :
    (∀ x v, Number.read? x = some v → (∀ c ∈ (Text.trimmed x.toList).head?, isSign c = false) →
      (a.editor.enter (Typing.withoutTabs x)).candidates = [] →
      ((∀ c ∈ x.toList, isSign c = false) → (a.typeText (x ++ "=")).Shows v) ∧
      ((∃ c ∈ x.toList, isSign c = true) → a.IsCut x)) ∧
    ∀ v : Float, v.isFinite = true → 0 < v →
      let shown := Number.display v
      (a.editor.enter shown).candidates = [] →
      ((∀ c ∈ shown.toList, isSign c = false) → (a.typeText (shown ++ "=")).Shows v) ∧
      ((∃ c ∈ shown.toList, isSign c = true) → a.IsCut shown) := by
  refine ⟨fun x v => typed_literal empty, fun v finite positive => ?_⟩
  simp only
  rw [Number.display_of_pos positive finite]
  intro bare
  obtain ⟨d, literal, _⟩ := Number.exists_literal_write .result finite
  have inked := Number.Literal.isBlank_of_literal literal
  refine typed_literal empty (Number.read?_write .result finite) ?_ ?_
  · rw [Text.trimmed_of_inked inked]
    exact Number.unsigned_write .result finite (Number.Binary64.isNegative_of_pos positive finite)
  · rwa [Typing.withoutTabs_of_inked inked]

theorem power_of_ten_typed :
    let a := App.new (Editor.new ⟨0, 0⟩ none (none : Option Memory)) 8
    a.editor.formula = [] ∧ Number.read? "\t2.5E3" = some 2500 ∧
      (a.typeText ("\t2.5E3" ++ "=")).Shows 2500 ∧
      Number.display 0.125 = "0.125" ∧ (a.typeText (Number.display 0.125 ++ "=")).Shows 0.125 := by
  intro a
  have typed := a.typed_number rfl
  have reads : Number.read? "\t2.5E3" = some 2500 := by decide +kernel
  have shown : Number.display 0.125 = "0.125" := by decide +kernel
  refine ⟨rfl, reads, ?_, shown, ?_⟩
  · refine (typed.1 "\t2.5E3" 2500 reads ?_ rfl).1 (by simp [isSign])
    have first : (Text.trimmed "\t2.5E3".toList).head? = some '2' := by decide +kernel
    rw [first]
    rintro c ⟨⟩
    rfl
  · refine (typed.2 0.125 (by decide +kernel) (by decide +kernel) rfl).1 ?_
    rw [shown]
    simp [isSign]

/-- A hundred-thousandth is read as a number, but typed it is a difference; and so is a displayed
result below a millionth. -/
theorem negative_power_is_cut :
    let a := App.new (Editor.new ⟨0, 0⟩ none (none : Option Memory)) 8
    a.editor.formula = [] ∧ a.editor.rawCandidates = [] ∧
      Number.read? "1e-5" = some 1e-5 ∧ ¬ (a.typeText ("1e-5" ++ "=")).Shows 1e-5 ∧
      (a.typeText ("1e-5" ++ "=")).editor.formula =
        [.var "0-0" "1e" .zero none, .operator (.arithmetic .subtract), .ofFloat 5] ∧
      (a.typeText ("1e-5" ++ "=")).result = "-5" ∧
      Number.display 1e-7 = "1e-7" ∧ ¬ (a.typeText (Number.display 1e-7 ++ "=")).Shows 1e-7 := by
  intro a
  have three {b : App Memory} {v : Float} (cut : b.editor.formula.length = 3) : ¬ b.Shows v := by
    rintro ⟨alone, _⟩
    rw [alone] at cut
    cases cut
  refine ⟨rfl, rfl, by decide +kernel, three (by decide +kernel), by decide +kernel,
    by decide +kernel, by decide +kernel, three (by decide +kernel)⟩

end App

end TagFormula
