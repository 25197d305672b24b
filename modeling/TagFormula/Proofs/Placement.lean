import TagFormula.Grammar

/-!
What one item does to a conversion. An item that is not refused acts in one of five ways, and
what is released on the way keeps the parentheses it does not close.
-/
namespace TagFormula.Rpn

open Grammar (opItem)

def openItem (i : Nat) : Item := ⟨i, .operator .openParen⟩

def closeItem (i : Nat) : Item := ⟨i, .operator .closeParen⟩

/-- `Places c item d`: the item is in order after `c` and leads to `d`. -/
inductive Places : Conversion → Item → Conversion → Prop where
  | operand {written pending} (i : Nat) (v : Float) :
    Places ⟨written, pending, true⟩ ⟨i, .operand v⟩ ⟨⟨i, .push v⟩ :: written, pending, false⟩
  | openParen {written pending} (i : Nat) :
    Places ⟨written, pending, true⟩ (openItem i) ⟨written, .paren i :: pending, true⟩
  | sign {written pending op s} (i : Nat) (isSign : signOf? op = some s) :
    Places ⟨written, pending, true⟩ (opItem i op)
      ⟨written, .operation i (.sign s) :: pending, true⟩
  | closeParen {written pending pending' written'} (i : Nat)
    (closed : releaseParen? pending written = some (pending', written')) :
    Places ⟨written, pending, false⟩ (closeItem i) ⟨written', pending', false⟩
  | arithmetic {written pending} (i : Nat) (op : Arithmetic) :
    Places ⟨written, pending, false⟩ (opItem i op)
      ⟨(releaseBefore op pending written).2,
        .operation i (.arithmetic op) :: (releaseBefore op pending written).1, true⟩

theorem places_of_place {c d : Conversion} {item : Item} (h : place c item = .ok d) :
    Places c item d := by
  obtain ⟨written, pending, wants⟩ := c
  obtain ⟨i, v | op | _ | _⟩ := item <;> cases wants <;>
    simp only [place, Bool.false_eq_true, ↓reduceIte, Except.ok.injEq, reduceCtorEq] at h
  · exact h ▸ .operand i v
  · exact h ▸ .arithmetic i op
  · split at h
    · next isSign => exact Except.ok.inj h ▸ .sign i isSign
    · cases h
  · exact h ▸ .openParen i
  · split at h
    · next closed => exact Except.ok.inj h ▸ .closeParen i closed
    · cases h

theorem place_of_places {c d : Conversion} {item : Item} (h : Places c item d) :
    place c item = .ok d := by
  cases h with
  | operand i v | openParen i | arithmetic i op => rfl
  | sign i isSign => simp only [place, opItem, isSign, ↓reduceIte]
  | closeParen i closed => simp only [place, closeItem, closed, Bool.false_eq_true, ↓reduceIte]

theorem place_eq_ok_iff {c d : Conversion} {item : Item} :
    place c item = .ok d ↔ Places c item d :=
  ⟨places_of_place, place_of_places⟩

/-! ## Rows of items -/

theorem foldlM_append_eq_ok_iff {α β ε : Type} {f : β → α → Except ε β} {c d : β}
    {xs ys : List α} : (xs ++ ys).foldlM f c = .ok d ↔
      ∃ m, xs.foldlM f c = .ok m ∧ ys.foldlM f m = .ok d := by
  rw [List.foldlM_append]
  cases xs.foldlM f c with
  | error fault => simp [bind, Except.bind]
  | ok m => simp [bind, Except.bind]

theorem read_cons_eq_ok_iff {c d : Conversion} {x : Item} {xs : List Item} :
    (x :: xs).foldlM place c = .ok d ↔ ∃ m, Places c x m ∧ xs.foldlM place m = .ok d := by
  rw [List.foldlM_cons]
  cases placed : place c x with
  | error fault => simp [← place_eq_ok_iff, placed, bind, Except.bind]
  | ok m => simp [← place_eq_ok_iff, placed, bind, Except.bind]

theorem read_stops {c : Conversion} {xs : List Item} {fault : StructureFault}
    (stopped : xs.foldlM place c = .error fault) :
    ∃ p item rest m, xs = p ++ item :: rest ∧ p.foldlM place c = .ok m ∧
      place m item = .error fault := by
  induction xs generalizing c with
  | nil => cases stopped
  | cons x xs ih =>
    rw [List.foldlM_cons] at stopped
    cases placed : place c x with
    | error other =>
      rw [placed] at stopped
      cases stopped
      exact ⟨[], x, xs, c, rfl, rfl, placed⟩
    | ok d =>
      rw [placed] at stopped
      obtain ⟨p, item, rest, m, rfl, first, last⟩ := ih stopped
      exact ⟨x :: p, item, rest, m, rfl,
        read_cons_eq_ok_iff.mpr ⟨d, places_of_place placed, first⟩, last⟩

theorem read_induction (keeps : List Item → Conversion → Prop)
    (step : ∀ xs c x d, keeps xs c → Places c x d → keeps (xs ++ [x]) d)
    {xs ys : List Item} {c d : Conversion} (first : keeps xs c)
    (read : ys.foldlM place c = .ok d) : keeps (xs ++ ys) d := by
  induction ys generalizing xs c with
  | nil =>
    cases read
    simpa using first
  | cons y ys ih =>
    obtain ⟨m, placed, rest⟩ := read_cons_eq_ok_iff.mp read
    have next := ih (step xs c y m first placed) rest
    simpa using next

end TagFormula.Rpn
