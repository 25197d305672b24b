import TagFormula.Typing

/-!
Cutting a typed text loses nothing. The actions of a text are pieces of it, each with the cut that
follows it, and what is left after the last cut. Said one after the other they are the text again,
tabs apart, and no other row of actions of this form says the same.
-/
namespace TagFormula.Typing

/-! ## Text without cuts -/

theorem cut?_eq_none_iff {c : Char} :
    cut? c = none ↔ c ≠ '=' ∧ ∀ op : Operator, c ≠ op.symbol := by
  unfold cut?
  constructor
  · intro uncut
    split at uncut
    · cases uncut
    · next unequal =>
      refine ⟨unequal, fun op same => ?_⟩
      rw [same, Operator.ofChar?_symbol] at uncut
      cases uncut
  · rintro ⟨unequal, unknown⟩
    rw [if_neg unequal, if_neg]
    intro known
    obtain ⟨op, found⟩ := Option.isSome_iff_exists.mp known
    exact unknown op (Operator.ofChar?_eq_some_iff.mp found)

def isPlain (c : Char) : Bool := c ≠ '\t' && (cut? c).isNone

theorem isPlain_iff {c : Char} : isPlain c = true ↔ c ≠ '\t' ∧ cut? c = none := by
  simp [isPlain]

theorem actionsFrom_plain (isCut : Bool) (piece : List Char) {xs : List Char} (ys : List Char)
    (plain : ∀ c ∈ xs, isPlain c = true) :
    actionsFrom isCut piece (xs ++ ys) = actionsFrom isCut (xs.reverse ++ piece) ys := by
  induction xs generalizing piece with
  | nil => rfl
  | cons c xs ih =>
    obtain ⟨first, rest⟩ := List.forall_mem_cons.mp plain
    obtain ⟨noTab, noCut⟩ := isPlain_iff.mp first
    rw [List.cons_append, actionsFrom, if_neg noTab, noCut]
    simp only
    rw [ih (c :: piece) rest, List.reverse_cons, List.append_assoc]
    rfl

theorem actionsFrom_cut (isCut : Bool) {xs : List Char} (plain : ∀ c ∈ xs, isPlain c = true)
    {c : Char} {a : Action} (cut : cut? c = some a) (ys : List Char) :
    actionsFrom isCut [] (xs ++ c :: ys) =
      .type (String.ofList xs) :: a :: actionsFrom true [] ys := by
  have noTab : c ≠ '\t' := by
    rintro rfl
    cases cut
  rw [actionsFrom_plain isCut [] (c :: ys) plain, actionsFrom, if_neg noTab, cut, List.append_nil,
    List.reverse_reverse]

/-! ## Text without tabs -/

def withoutTabs (text : String) : String := String.ofList (text.toList.filter (· ≠ '\t'))

theorem toList_withoutTabs (text : String) :
    (withoutTabs text).toList = text.toList.filter (· ≠ '\t') := String.toList_ofList

theorem actionsFrom_filter (isCut : Bool) (piece xs : List Char) :
    actionsFrom isCut piece (xs.filter (· ≠ '\t')) = actionsFrom isCut piece xs := by
  induction xs generalizing isCut piece with
  | nil => rfl
  | cons c xs ih =>
    by_cases tab : c = '\t'
    · rw [List.filter_cons_of_neg (by simpa using tab), actionsFrom, if_pos tab, ih]
    · rw [List.filter_cons_of_pos (by simpa using tab), actionsFrom, actionsFrom, if_neg tab,
        if_neg tab]
      cases cut? c with
      | some a => simp only [ih]
      | none => exact ih isCut (c :: piece)

theorem actions_withoutTabs_eq (text : String) : actions (withoutTabs text) = actions text := by
  rw [actions, toList_withoutTabs, actionsFrom_filter]
  rfl

/-! ## Rows of pieces and cuts -/

def said : Action → String
  | .type text => text
  | .operator c => String.singleton c
  | .evaluate => "="
  | _ => ""

def saidBy (as : List Action) : String := String.join (as.map said)

/-- A text with no tab, equals sign or operator in it. -/
def IsPiece (text : String) : Prop :=
  ∀ c ∈ text.toList, c ≠ '\t' ∧ c ≠ '=' ∧ ∀ op : Operator, c ≠ op.symbol

def IsCut (a : Action) : Prop := a = .evaluate ∨ ∃ op : Operator, a = .operator op.symbol

/-- The pieces with the cuts after them. What is left is typed if it is something, or if nothing
was cut. -/
def inOrder (pieces : List (String × Action)) (rest : String) : List Action :=
  pieces.flatMap (fun p => [.type p.1, p.2]) ++ if pieces = [] ∨ rest ≠ "" then [.type rest] else []

/-- A row of pieces and cuts that says this text. -/
def Cuts (text : String) (as : List Action) : Prop :=
  ∃ pieces rest, as = inOrder pieces rest ∧ (∀ p ∈ pieces, IsPiece p.1 ∧ IsCut p.2) ∧
    IsPiece rest ∧ saidBy as = withoutTabs text

theorem isPiece_iff {text : String} : IsPiece text ↔ ∀ c ∈ text.toList, isPlain c = true := by
  simp only [isPlain_iff, cut?_eq_none_iff]
  rfl

theorem IsCut.exists_char {a : Action} (h : IsCut a) :
    ∃ c, cut? c = some a ∧ (said a).toList = [c] := by
  rcases h with rfl | ⟨op, rfl⟩
  · exact ⟨'=', rfl, rfl⟩
  · refine ⟨op.symbol, ?_, String.toList_singleton _⟩
    rcases op with (_ | _ | _ | _ | _) | _ | _ <;> rfl

theorem isCut_of_cut? {c : Char} {a : Action} (cut : cut? c = some a) :
    IsCut a ∧ (said a).toList = [c] := by
  unfold cut? at cut
  split at cut
  · next equals =>
    cases cut
    exact ⟨.inl rfl, by rw [equals]; rfl⟩
  · split at cut
    · next known =>
      obtain ⟨op, found⟩ := Option.isSome_iff_exists.mp known
      cases cut
      exact ⟨.inr ⟨op, congrArg Action.operator (Operator.ofChar?_eq_some_iff.mp found)⟩,
        String.toList_singleton c⟩
    · cases cut

/-! ## Cutting what such a row says -/

def characters (pieces : List (String × Action)) : List Char :=
  pieces.flatMap fun p => p.1.toList ++ (said p.2).toList

theorem toList_saidBy (as : List Action) :
    (saidBy as).toList = as.flatMap fun a => (said a).toList := by
  rw [saidBy, String.toList_join, List.flatMap_map]

theorem toList_saidBy_inOrder (pieces : List (String × Action)) (rest : String) :
    (saidBy (inOrder pieces rest)).toList = characters pieces ++ rest.toList := by
  have last : (if pieces = [] ∨ rest ≠ "" then [Action.type rest] else []).flatMap
      (fun a => (said a).toList) = rest.toList := by
    split
    · exact List.flatMap_singleton _ _
    · next spare =>
      obtain ⟨_, nothing⟩ := not_or.mp spare
      rw [Decidable.not_not.mp nothing]
      rfl
  rw [toList_saidBy, inOrder, List.flatMap_append, last, List.flatMap_assoc]
  simp only [characters, List.flatMap_cons, List.flatMap_nil, List.append_nil]
  rfl

theorem actionsFrom_characters (isCut : Bool) {pieces : List (String × Action)}
    (each : ∀ p ∈ pieces, IsPiece p.1 ∧ IsCut p.2) (ys : List Char) :
    actionsFrom isCut [] (characters pieces ++ ys) =
      pieces.flatMap (fun p => [.type p.1, p.2]) ++
        actionsFrom (isCut || !pieces.isEmpty) [] ys := by
  induction pieces generalizing isCut with
  | nil => simp [characters]
  | cons p pieces ih =>
    obtain ⟨⟨piece, kind⟩, others⟩ := List.forall_mem_cons.mp each
    obtain ⟨c, cut, alone⟩ := kind.exists_char
    have split : characters (p :: pieces) ++ ys = p.1.toList ++ c :: (characters pieces ++ ys) := by
      simp [characters, alone]
    rw [split, actionsFrom_cut isCut (isPiece_iff.mp piece) cut, String.ofList_toList,
      ih true others]
    simp

theorem actionsFrom_inOrder {pieces : List (String × Action)} {rest : String}
    (each : ∀ p ∈ pieces, IsPiece p.1 ∧ IsCut p.2) (last : IsPiece rest) :
    actionsFrom false [] (characters pieces ++ rest.toList) = inOrder pieces rest := by
  have left := actionsFrom_plain (!pieces.isEmpty) [] [] (isPiece_iff.mp last)
  rw [List.append_nil, List.append_nil, actionsFrom, List.reverse_reverse,
    String.ofList_toList] at left
  have same : (!pieces.isEmpty && rest.toList.reverse.isEmpty) = true ↔
      ¬(pieces = [] ∨ rest ≠ "") := by
    simp [not_or]
  rw [actionsFrom_characters false each, Bool.false_or, left, inOrder, ite_congr (propext same)
    (fun _ => rfl) fun _ => rfl, ite_not]

theorem exists_pieces {xs : List Char} (noTab : ∀ c ∈ xs, c ≠ '\t') :
    ∃ pieces rest, xs = characters pieces ++ rest.toList ∧
      (∀ p ∈ pieces, IsPiece p.1 ∧ IsCut p.2) ∧ IsPiece rest := by
  induction xs with
  | nil => exact ⟨[], "", rfl, List.forall_mem_nil _, List.forall_mem_nil _⟩
  | cons c xs ih =>
    obtain ⟨tab, others⟩ := List.forall_mem_cons.mp noTab
    obtain ⟨pieces, rest, rfl, each, last⟩ := ih others
    cases cut : cut? c with
    | some a =>
      obtain ⟨kind, alone⟩ := isCut_of_cut? cut
      refine ⟨("", a) :: pieces, rest, ?_, ?_, last⟩
      · simp [characters, alone]
      · exact List.forall_mem_cons.mpr ⟨⟨List.forall_mem_nil _, kind⟩, each⟩
    | none =>
      have longer {text : String} (piece : IsPiece text) :
          IsPiece (String.singleton c ++ text) := by
        rw [isPiece_iff, String.toList_append, String.toList_singleton]
        exact List.forall_mem_cons.mpr ⟨isPlain_iff.mpr ⟨tab, cut⟩, isPiece_iff.mp piece⟩
      cases pieces with
      | nil => exact ⟨[], String.singleton c ++ rest, by simp [characters], each, longer last⟩
      | cons p pieces =>
        obtain ⟨⟨piece, kind⟩, others⟩ := List.forall_mem_cons.mp each
        refine ⟨(String.singleton c ++ p.1, p.2) :: pieces, rest, by simp [characters], ?_, last⟩
        exact List.forall_mem_cons.mpr ⟨⟨longer piece, kind⟩, others⟩

/-! ## Cutting texts -/

theorem cuts_iff {text : String} {as : List Action} : Cuts text as ↔ as = actions text := by
  rw [← actions_withoutTabs_eq]
  constructor
  · rintro ⟨pieces, rest, rfl, each, last, same⟩
    rw [← same, actions, toList_saidBy_inOrder, actionsFrom_inOrder each last]
  · rintro rfl
    have noTab : ∀ c ∈ (withoutTabs text).toList, c ≠ '\t' := by
      rw [toList_withoutTabs]
      exact fun c member => of_decide_eq_true (List.mem_filter.mp member).2
    obtain ⟨pieces, rest, whole, each, last⟩ := exists_pieces noTab
    have cut : actions (withoutTabs text) = inOrder pieces rest := by
      rw [actions, whole, actionsFrom_inOrder each last]
    refine ⟨pieces, rest, cut, each, last, String.toList_inj.mp ?_⟩
    rw [cut, toList_saidBy_inOrder, whole]

theorem inOrder_ne_nil (pieces : List (String × Action)) (rest : String) :
    inOrder pieces rest ≠ [] := by
  cases pieces with
  | nil => simp [inOrder]
  | cons p pieces => simp [inOrder]

/-- For every text there is one row of pieces and cuts that says it without its tabs, and its
actions are that row. They are never none, and what they say is cut into them again. -/
theorem cutting_loses_nothing (text : String) :
    (∀ as, Cuts text as ↔ as = actions text) ∧ actions text ≠ [] ∧
      actions (saidBy (actions text)) = actions text := by
  obtain ⟨pieces, rest, cut, _, _, same⟩ := cuts_iff.mpr (Eq.refl (actions text))
  refine ⟨fun as => cuts_iff, ?_, ?_⟩
  · rw [cut]
    exact inOrder_ne_nil pieces rest
  · rw [same, actions_withoutTabs_eq]

example : actions "\t2=(x" = [.type "2", .evaluate, .type "", .operator '(', .type "x"] := by decide

end TagFormula.Typing
