import Mathlib.Data.List.Forall2
import TagFormula.Proofs.Placement

/-!
Two conversions side by side. Which indices, which operands and which written steps go together is
left open; as long as steps that go together are written on both sides, what waits on one side is
what waits on the other, and the two end alike: both with steps that go together, or both with a
fault of the same kind at indices that do.
-/
namespace TagFormula.Rpn

/-- What goes together in two conversions. -/
structure Likeness where
  index : Nat → Nat → Prop
  value : Float → Float → Prop
  /-- Of the steps written so far, the newest first. -/
  written : List Step → List Step → Prop
  start : written [] []
  push {i j : Nat} {v w : Float} {ws xs : List Step} : index i j → value v w → written ws xs →
    written (⟨i, .push v⟩ :: ws) (⟨j, .push w⟩ :: xs)
  operate {i j : Nat} {ws xs : List Step} (op : Operation) : index i j → written ws xs →
    written (⟨i, .operate op⟩ :: ws) (⟨j, .operate op⟩ :: xs)

namespace Likeness

variable (L : Likeness)

inductive Lexemes : Lexeme → Lexeme → Prop where
  | operand {v w : Float} : L.value v w → Lexemes (.operand v) (.operand w)
  | operator (op : Operator) : Lexemes (.operator op) (.operator op)

structure Items (x y : Item) : Prop where
  index : L.index x.index y.index
  lexeme : L.Lexemes x.lexeme y.lexeme

inductive Waiting : Pending → Pending → Prop where
  | paren {i j : Nat} : L.index i j → Waiting (.paren i) (.paren j)
  | operation {i j : Nat} (op : Operation) : L.index i j →
    Waiting (.operation i op) (.operation j op)

structure States (c d : Conversion) : Prop where
  written : L.written c.written d.written
  pending : List.Forall₂ L.Waiting c.pending d.pending
  wantsValue : c.wantsValue = d.wantsValue

def Steps (ws xs : List Step) : Prop := L.written ws.reverse xs.reverse

/-- Both sides come to results that go together, or to faults of one kind. -/
inductive Results {α : Type} (R : α → α → Prop) :
    Except StructureFault α → Except StructureFault α → Prop where
  | ok {a b : α} : R a b → Results R (.ok a) (.ok b)
  | error {i j : Nat} (kind : StructureFault.Kind) : L.index i j →
    Results R (.error ⟨i, kind⟩) (.error ⟨j, kind⟩)

variable {L}

theorem Results.bind {α β : Type} {R : α → α → Prop} {S : β → β → Prop}
    {r s : Except StructureFault α} {f g : α → Except StructureFault β} (h : L.Results R r s)
    (next : ∀ a b, R a b → L.Results S (f a) (g b)) : L.Results S (r >>= f) (s >>= g) := by
  cases h with
  | ok related => exact next _ _ related
  | error kind related => exact .error kind related

theorem Results.ok_iff {α : Type} {R : α → α → Prop} {r s : Except StructureFault α}
    (h : L.Results R r s) : (∃ a, s = .ok a) ↔ ∃ a, r = .ok a := by
  cases h with
  | ok related => exact ⟨fun _ => ⟨_, rfl⟩, fun _ => ⟨_, rfl⟩⟩
  | error kind related => exact ⟨nofun, nofun⟩

/-! ## Releasing what waits -/

theorem releaseBefore_alike {p q : List Pending} {ws xs : List Step} (next : Arithmetic)
    (pending : List.Forall₂ L.Waiting p q) (written : L.written ws xs) :
    List.Forall₂ L.Waiting (releaseBefore next p ws).1 (releaseBefore next q xs).1 ∧
      L.written (releaseBefore next p ws).2 (releaseBefore next q xs).2 := by
  induction pending generalizing ws xs with
  | nil => exact ⟨.nil, written⟩
  | cons top rest ih =>
    cases top with
    | paren related => exact ⟨.cons (.paren related) rest, written⟩
    | operation op related =>
      rw [releaseBefore, releaseBefore]
      split
      · exact ih (L.operate op related written)
      · exact ⟨.cons (.operation op related) rest, written⟩

theorem releaseParen_alike {p q : List Pending} {ws xs : List Step}
    (pending : List.Forall₂ L.Waiting p q) (written : L.written ws xs) :
    (releaseParen? p ws = none ∧ releaseParen? q xs = none) ∨
      ∃ p' q' ws' xs', releaseParen? p ws = some (p', ws') ∧
        releaseParen? q xs = some (q', xs') ∧ List.Forall₂ L.Waiting p' q' ∧
        L.written ws' xs' := by
  induction pending generalizing ws xs with
  | nil => exact .inl ⟨rfl, rfl⟩
  | cons top rest ih =>
    cases top with
    | paren related => exact .inr ⟨_, _, _, _, rfl, rfl, rest, written⟩
    | operation op related => exact ih (L.operate op related written)

theorem releaseAll_alike {p q : List Pending} {ws xs : List Step}
    (pending : List.Forall₂ L.Waiting p q) (written : L.written ws xs) :
    L.Results L.Steps (releaseAll p ws) (releaseAll q xs) := by
  induction pending generalizing ws xs with
  | nil => exact .ok (by simpa [Steps] using written)
  | cons top rest ih =>
    cases top with
    | paren related => exact .error .unclosedParen related
    | operation op related => exact ih (L.operate op related written)

/-! ## Reading items -/

theorem place_alike {c d : Conversion} {x y : Item} (states : L.States c d)
    (items : L.Items x y) : L.Results L.States (place c x) (place d y) := by
  obtain ⟨ws, p, wants⟩ := c
  obtain ⟨xs, q, wants'⟩ := d
  obtain ⟨i, lexeme⟩ := x
  obtain ⟨j, lexeme'⟩ := y
  obtain ⟨written, pending, rfl⟩ := states
  obtain ⟨index, lexemes⟩ := items
  cases lexemes with
  | operand related =>
    cases wants with
    | true => exact .ok ⟨L.push index related written, pending, rfl⟩
    | false => exact .error _ index
  | operator op =>
    rcases op with op | _ | _
    · cases wants with
      | true =>
        simp only [place, ↓reduceIte]
        cases signOf? op with
        | some s => exact .ok ⟨written, .cons (.operation _ index) pending, rfl⟩
        | none => exact .error _ index
      | false =>
        obtain ⟨pending, written⟩ := releaseBefore_alike op pending written
        exact .ok ⟨written, .cons (.operation _ index) pending, rfl⟩
    · cases wants with
      | true => exact .ok ⟨written, .cons (.paren index) pending, rfl⟩
      | false => exact .error _ index
    · cases wants with
      | true => exact .error _ index
      | false =>
        simp only [place, Bool.false_eq_true, ↓reduceIte]
        rcases releaseParen_alike pending written with
          ⟨none, none'⟩ | ⟨p', q', ws', xs', some, some', pending, written⟩
        · rw [none, none']
          exact .error _ index
        · rw [some, some']
          exact .ok ⟨written, pending, rfl⟩

theorem read_alike {c d : Conversion} {xs ys : List Item} (states : L.States c d)
    (items : List.Forall₂ L.Items xs ys) :
    L.Results L.States (xs.foldlM place c) (ys.foldlM place d) := by
  induction items generalizing c d with
  | nil => exact .ok states
  | cons first rest ih =>
    rw [List.foldlM_cons, List.foldlM_cons]
    exact (place_alike states first).bind fun a b next => ih next

theorem start_alike : L.States Rpn.start Rpn.start := ⟨L.start, .nil, rfl⟩

theorem finish_alike {c d : Conversion} {xs ys : List Item} (states : L.States c d)
    (last : c.wantsValue = true → Option.Rel L.Items xs.getLast? ys.getLast?) :
    L.Results L.Steps (finish xs c) (finish ys d) := by
  unfold finish
  rw [← states.wantsValue]
  split
  · next wants =>
    have ends := last wants
    generalize xs.getLast? = first at ends
    generalize ys.getLast? = second at ends
    cases ends with
    | some related => exact .error _ related.index
    | none => exact .ok L.start
  · exact releaseAll_alike states.pending states.written

theorem ofItems_eq_bind (xs : List Item) :
    ofItems xs = xs.foldlM place Rpn.start >>= finish xs := by
  unfold ofItems
  cases xs.foldlM place Rpn.start <;> rfl

theorem getLast?_alike {xs ys : List Item} (items : List.Forall₂ L.Items xs ys) :
    Option.Rel L.Items xs.getLast? ys.getLast? := by
  induction items with
  | nil => exact .none
  | @cons x y xs ys first rest ih =>
    cases rest with
    | nil => exact .some first
    | cons second rest => simpa using ih

theorem items_of_lexemes {xs ys : List Item} (value : ∀ v, L.value v v)
    (index : ∀ (n i j : Nat), xs[n]?.map Item.index = some i → ys[n]?.map Item.index = some j →
      L.index i j)
    (same : xs.map Item.lexeme = ys.map Item.lexeme) : List.Forall₂ L.Items xs ys := by
  induction xs generalizing ys with
  | nil =>
    obtain rfl := List.map_eq_nil_iff.mp same.symm
    exact .nil
  | cons x xs ih =>
    obtain ⟨y, ys, rfl, first, rest⟩ := List.map_eq_cons_iff.mp same.symm
    have lexemes : L.Lexemes x.lexeme y.lexeme := by
      rw [first]
      cases x.lexeme with
      | operand v => exact .operand (value v)
      | operator op => exact .operator op
    exact .cons ⟨index 0 _ _ rfl rfl, lexemes⟩ (ih (fun n => index (n + 1)) rest.symm)

theorem ofItems_alike {xs ys : List Item} (items : List.Forall₂ L.Items xs ys) :
    L.Results L.Steps (ofItems xs) (ofItems ys) := by
  rw [ofItems_eq_bind, ofItems_eq_bind]
  exact (read_alike start_alike items).bind fun c d states =>
    finish_alike states fun _ => getLast?_alike items

end Likeness

end TagFormula.Rpn
