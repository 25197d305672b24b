import Mathlib.Logic.Function.Iterate
import TagFormula.Proofs.FormulaValue
import TagFormula.Proofs.Likeness

/-!
A part of a formula and its value. Where an operand stands, an expression in parentheses may stand
that comes to the same value: the formula keeps its value, and if it is refused, it still is, for
the same reason and at the same item.
-/
namespace TagFormula.Rpn

open Grammar (Parses)

def valueOf (items : List Item) : Except StructureFault Float := ofItems items >>= run

theorem valueOf_of_parses {xs : List Item} {e : Expression} (parses : Parses .sum xs e) :
    valueOf xs = .ok e.value := by
  rw [valueOf, Grammar.ofItems_of_parses parses]
  exact e.run_eq_value

theorem valueOf_eq_ok_iff {xs : List Item} (nonempty : xs ≠ []) {v : Float} :
    valueOf xs = .ok v ↔ ∃ e, Parses .sum xs e ∧ e.value = v := by
  constructor
  · intro found
    cases converted : ofItems xs with
    | error fault =>
      rw [valueOf, converted] at found
      cases found
    | ok steps =>
      obtain ⟨e, parses, _⟩ := (Grammar.ofItems_eq_ok_iff nonempty).mp converted
      rw [valueOf_of_parses parses] at found
      exact ⟨e, parses, Except.ok.inj found⟩
  · rintro ⟨e, parses, rfl⟩
    exact valueOf_of_parses parses

/-! ## Steps that run alike -/

/-- Run on an empty stack, both rows of steps leave the same one, or neither leaves any. -/
def SameRun (ws xs : List Step) : Prop :=
  ∀ stack, ws.foldlM Step.run [] = .ok stack ↔ xs.foldlM Step.run [] = .ok stack

theorem runs_iff_of_instruction {s t : Step} (same : s.instruction = t.instruction)
    (stack after : List Float) :
    [s].foldlM Step.run stack = .ok after ↔ [t].foldlM Step.run stack = .ok after := by
  obtain ⟨i, instruction⟩ := s
  obtain ⟨j, _⟩ := t
  obtain rfl := same
  rcases instruction with v | _ | op
  · rfl
  · cases stack with
    | nil => exact ⟨nofun, nofun⟩
    | cons a rest => rfl
  · rcases stack with _ | ⟨a, _ | ⟨b, rest⟩⟩
    · exact ⟨nofun, nofun⟩
    · exact ⟨nofun, nofun⟩
    · rfl

theorem SameRun.append {ws xs ys zs : List Step} (h : SameRun ws xs)
    (same : ∀ stack after,
      ys.foldlM Step.run stack = .ok after ↔ zs.foldlM Step.run stack = .ok after) :
    SameRun (ws ++ ys) (xs ++ zs) := by
  intro after
  simp only [foldlM_append_eq_ok_iff, h _, same]

theorem SameRun.step {ws xs : List Step} {s t : Step} (h : SameRun ws.reverse xs.reverse)
    (same : s.instruction = t.instruction) : SameRun (s :: ws).reverse (t :: xs).reverse := by
  rw [List.reverse_cons, List.reverse_cons]
  exact h.append (runs_iff_of_instruction same)

theorem SameRun.expression {ws xs : List Step} (h : SameRun ws.reverse xs.reverse) (i : Nat)
    (e : Expression) :
    SameRun (⟨i, .push e.value⟩ :: ws).reverse (e.steps.reverse ++ xs).reverse := by
  rw [List.reverse_cons, List.reverse_append, List.reverse_reverse]
  refine h.append fun stack after => ?_
  rw [e.run_steps]
  rfl

theorem SameRun.value {e e' : Expression} (h : SameRun e.steps e'.steps) :
    e'.value = e.value := by
  have runs := (h _).mp (e.run_steps [])
  rw [e'.run_steps] at runs
  exact (List.cons.inj (Except.ok.inj runs)).1

def runningAlike : Likeness where
  index _ _ := True
  value := Eq
  written ws xs := SameRun ws.reverse xs.reverse
  start := fun _ => Iff.rfl
  push _ same h := h.step (congrArg Instruction.push same)
  operate _ _ h := h.step rfl

theorem runningAlike_steps {ws xs : List Step} : runningAlike.Steps ws xs ↔ SameRun ws xs := by
  simp only [Likeness.Steps, runningAlike, List.reverse_reverse]

def placedAlike (xs ys : List Item) (move : Nat → Nat) : Likeness where
  index i j := ∃ n, xs[n]?.map Item.index = some i ∧ ys[move n]?.map Item.index = some j
  value := Eq
  written _ _ := True
  start := trivial
  push _ _ _ := trivial
  operate _ _ _ := trivial

/-! ## An expression in the place of an operand -/

section Place

variable {L : Likeness} {p q p' q' xs : List Item} {i a b : Nat} {x : Float} {e : Expression}

def Likeness.Complete (L : Likeness) (c d : Conversion) : Prop :=
  L.States c d ∧ c.wantsValue = false

theorem place_parens_alike {c d : Conversion} (states : L.States c d) (index : L.index i a)
    (written : ∀ ws ys, L.written ws ys → L.written (⟨i, .push x⟩ :: ws) (e.steps.reverse ++ ys))
    (parses : Parses .sum xs e) :
    L.Results L.Complete (place c ⟨i, .operand x⟩)
      ((openItem a :: (xs ++ [closeItem b])).foldlM place d) := by
  obtain ⟨ws, waiting, wants⟩ := c
  obtain ⟨ys, waiting', _⟩ := d
  obtain ⟨steps, pending, rfl⟩ := states
  cases wants with
  | true =>
    rw [Grammar.read_parens a b (Grammar.readAs_of_parses parses)]
    exact .ok ⟨⟨written _ _ steps, pending, rfl⟩, rfl⟩
  | false => exact .error .unexpectedOperand index

theorem ofItems_parens_alike (before : List.Forall₂ L.Items p p')
    (after : List.Forall₂ L.Items q q') (index : L.index i a)
    (written : ∀ ws ys, L.written ws ys → L.written (⟨i, .push x⟩ :: ws) (e.steps.reverse ++ ys))
    (parses : Parses .sum xs e) :
    L.Results L.Steps (ofItems (p ++ ⟨i, .operand x⟩ :: q))
      (ofItems (p' ++ ((openItem a :: (xs ++ [closeItem b])) ++ q'))) := by
  simp only [Likeness.ofItems_eq_bind, List.foldlM_append, bind_assoc]
  refine (Likeness.read_alike Likeness.start_alike before).bind fun c d states => ?_
  rw [List.foldlM_cons, bind_assoc]
  refine (place_parens_alike states index written parses).bind fun c d complete => ?_
  cases after with
  | nil =>
    refine Likeness.finish_alike complete.1 fun wants => ?_
    cases wants.symm.trans complete.2
  | @cons y y' ys ys' first rest =>
    refine (Likeness.read_alike complete.1 (.cons first rest)).bind fun c d states => ?_
    refine Likeness.finish_alike states fun _ => ?_
    have last := Likeness.getLast?_alike (.cons first rest)
    simpa [List.getLast?_append, List.getLast?_cons] using last

end Place

/-! ## Other indices -/

theorem parses_of_lexemes {xs ys : List Item} {e : Expression} (parses : Parses .sum xs e)
    (same : xs.map Item.lexeme = ys.map Item.lexeme) :
    ∃ e', Parses .sum ys e' ∧ e'.value = e.value := by
  have items : List.Forall₂ runningAlike.Items xs ys :=
    Likeness.items_of_lexemes (fun _ => rfl) (fun _ _ _ _ _ => trivial) same
  have nonempty : ys ≠ [] := by
    rintro rfl
    exact Grammar.ne_nil_of_parses parses (List.map_eq_nil_iff.mp same)
  have alike := Likeness.ofItems_alike items
  rw [Grammar.ofItems_of_parses parses] at alike
  cases converted : ofItems ys with
  | error fault =>
    rw [converted] at alike
    cases alike
  | ok steps =>
    obtain ⟨e', parses', rfl⟩ := (Grammar.ofItems_eq_ok_iff nonempty).mp converted
    rw [converted] at alike
    cases alike with
    | ok runs => exact ⟨e', parses', (runningAlike_steps.mp runs).value⟩

def inParens (ls : List Lexeme) : List Lexeme :=
  .operator .openParen :: (ls ++ [.operator .closeParen])

theorem items_of_inParens {xs : List Item} {ls : List Lexeme}
    (same : xs.map Item.lexeme = inParens ls) :
    ∃ a b ys, xs = openItem a :: (ys ++ [closeItem b]) ∧ ys.map Item.lexeme = ls := by
  obtain ⟨⟨a, _⟩, rest, rfl, rfl, tail⟩ := List.map_eq_cons_iff.mp same
  obtain ⟨ys, last, rfl, inside, closing⟩ := List.map_eq_append_iff.mp tail
  obtain ⟨⟨b, _⟩, rfl, rfl⟩ := List.map_eq_singleton_iff.mp closing
  exact ⟨a, b, ys, rfl, inside⟩

theorem parses_in_parens {xs : List Item} {e : Expression} (a b : Nat)
    (parses : Parses .sum xs e) : Parses .sum (openItem a :: (xs ++ [closeItem b])) e :=
  (Grammar.Parses.parens a b parses).loosen (Nat.zero_le _)

theorem parses_of_inParens {s : List Item} {e : Expression} (parses : Parses .sum s e) (n : Nat)
    {xs : List Item} (same : xs.map Item.lexeme = inParens^[n] (s.map Item.lexeme)) :
    ∃ e', Parses .sum xs e' ∧ e'.value = e.value := by
  induction n generalizing xs with
  | zero => exact parses_of_lexemes parses same.symm
  | succ n ih =>
    rw [Function.iterate_succ_apply'] at same
    obtain ⟨a, b, ys, rfl, inside⟩ := items_of_inParens same
    obtain ⟨e', parses', value⟩ := ih inside
    exact ⟨e', parses_in_parens a b parses', value⟩

/-! ## The value in the place of the part -/

/-- Where the item at `n` goes when that at `k` gives way to `length` items in parentheses. -/
def moved (k length n : Nat) : Nat := if n ≤ k then n else n + length + 1

section Place

variable {p q p' q' xs : List Item} {e : Expression}

theorem same_run_in_place (i a b : Nat) (before : p.map Item.lexeme = p'.map Item.lexeme)
    (after : q.map Item.lexeme = q'.map Item.lexeme) (parses : Parses .sum xs e) :
    runningAlike.Results runningAlike.Steps (ofItems (p ++ ⟨i, .operand e.value⟩ :: q))
      (ofItems (p' ++ ((openItem a :: (xs ++ [closeItem b])) ++ q'))) := by
  have items {xs ys : List Item} (same : xs.map Item.lexeme = ys.map Item.lexeme) :
      List.Forall₂ runningAlike.Items xs ys :=
    Likeness.items_of_lexemes (fun _ => rfl) (fun _ _ _ _ _ => trivial) same
  exact ofItems_parens_alike (items before) (items after) trivial
    (fun ws ys h => h.expression i e) parses

theorem same_fault_in_place (i a b : Nat) (x : Float)
    (before : p.map Item.lexeme = p'.map Item.lexeme)
    (after : q.map Item.lexeme = q'.map Item.lexeme) (parses : Parses .sum xs e) :
    let f := p ++ ⟨i, .operand x⟩ :: q
    let f' := p' ++ ((openItem a :: (xs ++ [closeItem b])) ++ q')
    let alike := placedAlike f f' (moved p.length xs.length)
    alike.Results alike.Steps (ofItems f) (ofItems f') := by
  intro f f' alike
  have length : p.length = p'.length := by simpa using congrArg List.length before
  have here : alike.index i a := by
    refine ⟨p.length, by simp [f], ?_⟩
    rw [moved, if_pos (Nat.le_refl _), length, List.getElem?_append_right (Nat.le_refl _),
      Nat.sub_self]
    rfl
  refine ofItems_parens_alike ?_ ?_ here (fun _ _ _ => trivial) parses
  · refine Likeness.items_of_lexemes (fun _ => rfl) (fun n j j' left right => ?_) before
    have inside : n < p.length := by
      obtain ⟨y, found, _⟩ := Option.map_eq_some_iff.mp left
      exact (List.getElem?_eq_some_iff.mp found).1
    refine ⟨n, ?_, ?_⟩
    · rw [List.getElem?_append_left inside]
      exact left
    · rw [moved, if_pos (Nat.le_of_lt inside), List.getElem?_append_left (length ▸ inside)]
      exact right
  · refine Likeness.items_of_lexemes (fun _ => rfl) (fun n j j' left right => ?_) after
    refine ⟨p.length + 1 + n, ?_, ?_⟩
    · have there : f[p.length + 1 + n]? = q[n]? := by
        rw [List.getElem?_append_right (by omega),
          show p.length + 1 + n - p.length = n + 1 by omega, List.getElem?_cons_succ]
      rw [there]
      exact left
    · have there : f'[moved p.length xs.length (p.length + 1 + n)]? = q'[n]? := by
        rw [moved, if_neg (by omega), List.getElem?_append_right (by omega),
          List.getElem?_append_right (by simp; omega)]
        congr 1
        simp only [List.length_cons, List.length_append, List.length_nil]
        omega
      rw [there]
      exact right

end Place

theorem valueOf_of_same_run {xs ys : List Item} (nonempty : xs ≠ []) (nonempty' : ys ≠ [])
    (alike : runningAlike.Results runningAlike.Steps (ofItems xs) (ofItems ys))
    (accepted : ∃ steps, ofItems ys = .ok steps) :
    ∃ r, valueOf xs = .ok r ∧ valueOf ys = .ok r := by
  obtain ⟨steps, converted⟩ := alike.ok_iff.mp accepted
  obtain ⟨steps', converted'⟩ := accepted
  obtain ⟨e, parses, rfl⟩ := (Grammar.ofItems_eq_ok_iff nonempty).mp converted
  obtain ⟨e', parses', rfl⟩ := (Grammar.ofItems_eq_ok_iff nonempty').mp converted'
  rw [converted, converted'] at alike
  cases alike with
  | ok runs =>
    have same := (runningAlike_steps.mp runs).value
    exact ⟨e.value, valueOf_of_parses parses, same ▸ valueOf_of_parses parses'⟩

/-- In the place of an operand there may stand, in parentheses, any row of items that has a value:
the whole is accepted exactly if it was before, and then its value is that with the value of the
part as the operand, be it infinite or no number. If it is refused, it was before, for the same
reason and at the item that has moved there. Parentheses around the part alone, however many,
leave it its value. -/
theorem part_in_parens_as_its_value {f s f' : List Item} {k i : Nat} {x v : Float}
    (operand : f[k]? = some ⟨i, .operand x⟩) (nonempty : s ≠ []) (value : valueOf s = .ok v)
    (inserted : f'.map Item.lexeme = (f.take k).map Item.lexeme ++
      (inParens (s.map Item.lexeme) ++ (f.drop (k + 1)).map Item.lexeme)) :
    ((∃ steps, ofItems f' = .ok steps) ↔ ∃ steps, ofItems f = .ok steps) ∧
    ((∃ steps, ofItems f = .ok steps) →
      ∃ r, valueOf (f.set k ⟨i, .operand v⟩) = .ok r ∧ valueOf f' = .ok r) ∧
    (∀ fault, ofItems f = .error fault → ∃ fault', ofItems f' = .error fault' ∧
      fault'.kind = fault.kind ∧ ∃ n, f[n]?.map Item.index = some fault.index ∧
        f'[moved k s.length n]?.map Item.index = some fault'.index) ∧
    (∀ n xs, xs.map Item.lexeme = inParens^[n] (s.map Item.lexeme) → valueOf xs = .ok v) := by
  obtain ⟨e, parses, rfl⟩ := (valueOf_eq_ok_iff nonempty).mp value
  obtain ⟨inside, found⟩ := List.getElem?_eq_some_iff.mp operand
  obtain ⟨p', rest, rfl, before, tail⟩ := List.map_eq_append_iff.mp inserted
  obtain ⟨middle, q', rfl, part, after⟩ := List.map_eq_append_iff.mp tail
  obtain ⟨a, b, xs, rfl, renumbered⟩ := items_of_inParens part
  obtain ⟨e', parses', same⟩ := parses_of_lexemes parses renumbered.symm
  have cut : f = f.take k ++ ⟨i, .operand x⟩ :: f.drop (k + 1) := by
    rw [← found, ← List.drop_eq_getElem_cons inside, List.take_append_drop]
  have position : (f.take k).length = k := List.length_take_of_le (Nat.le_of_lt inside)
  have length : xs.length = s.length := by simpa using congrArg List.length renumbered
  have faults := same_fault_in_place i a b x before.symm after.symm parses'
  have runs := same_run_in_place i a b before.symm after.symm parses'
  simp only [← cut, position, length] at faults
  have replaced : f.set k ⟨i, .operand e.value⟩ =
      f.take k ++ ⟨i, .operand e.value⟩ :: f.drop (k + 1) := by
    rw [List.set_eq_take_append_cons_drop, if_pos inside]
  rw [same, ← replaced] at runs
  refine ⟨faults.ok_iff, ?_, ?_, ?_⟩
  · intro accepted
    refine valueOf_of_same_run ?_ (by simp) runs (faults.ok_iff.mpr accepted)
    exact List.ne_nil_of_length_pos (by rw [List.length_set]; omega)
  · intro fault refused
    rw [refused] at faults
    generalize ofItems _ = outcome at faults
    cases faults with
    | error kind related => exact ⟨_, rfl, rfl, related⟩
  · intro n ys enclosed
    obtain ⟨e'', parses'', same⟩ := parses_of_inParens parses n enclosed
    rw [valueOf_of_parses parses'', same]

def numbered (ls : List Lexeme) : List Item := ls.mapIdx fun n l => ⟨n, l⟩

theorem infinite_part :
    let f := numbered [.operator (.arithmetic .subtract), .operand 5,
      .operator (.arithmetic .multiply), .operand 2]
    let s := numbered [.operand 1, .operator (.arithmetic .divide), .operand 0]
    let f' := numbered [.operator (.arithmetic .subtract), .operator .openParen, .operand 1,
      .operator (.arithmetic .divide), .operand 0, .operator .closeParen,
      .operator (.arithmetic .multiply), .operand 2]
    f[1]? = some ⟨1, .operand 5⟩ ∧ valueOf s = .ok (1 / 0) ∧
      ∃ r, valueOf (f.set 1 ⟨1, .operand (1 / 0)⟩) = .ok r ∧ valueOf f' = .ok r := by
  intro f s f'
  have operand : f[1]? = some ⟨1, .operand 5⟩ := rfl
  have value : valueOf s = .ok (1 / 0) := rfl
  have inserted : f'.map Item.lexeme = (f.take 1).map Item.lexeme ++
      (inParens (s.map Item.lexeme) ++ (f.drop 2).map Item.lexeme) := rfl
  have accepted : ∃ steps, ofItems f = .ok steps := ⟨_, rfl⟩
  have same := part_in_parens_as_its_value operand (List.cons_ne_nil _ _) value inserted
  exact ⟨operand, value, same.2.1 accepted⟩

end TagFormula.Rpn
