import TagFormula.Evaluation
import TagFormula.Proofs.Placement
import TagFormula.Proofs.Postorder

/-!
A conversion against the grammar. Whatever is pending has a part of a derivation behind it, so
steps that are written at the end are those of an expression the items derive; and the items of
an expression, wherever they stand, are read as one operand whose steps are written in time.
-/
namespace TagFormula.Grammar

open Rpn

/-! ## Levels -/

def Level.depth : Level → Nat
  | sum => 0
  | product => 1
  | signed => 2
  | power => 3
  | atom => 4

def Level.looser : Level → Level
  | sum => sum
  | product => sum
  | signed => product
  | power => signed
  | atom => power

theorem depth_looser (level : Level) : level.looser.depth = level.depth - 1 := by
  cases level <;> rfl

theorem depth_injective {level other : Level} (same : level.depth = other.depth) :
    level = other := by
  cases level <;> cases other <;> first | rfl | cases same

def leftLevel : Arithmetic → Level
  | .add | .subtract => .sum
  | .multiply | .divide => .product
  | .power => .atom

def rightLevel : Operation → Level
  | .arithmetic .add | .arithmetic .subtract => .product
  | _ => .signed

def wholeLevel : Operation → Level
  | .sign _ => .signed
  | .arithmetic .add | .arithmetic .subtract => .sum
  | .arithmetic .multiply | .arithmetic .divide => .product
  | .arithmetic .power => .power

theorem Parses.looser {level : Level} {xs : List Item} {e : Expression}
    (h : Parses level xs e) : Parses level.looser xs e := by
  cases level with
  | sum => exact h
  | product => exact .sumOfProduct h
  | signed => exact .productOfSigned h
  | power => exact .signedOfPower h
  | atom => exact .powerOfAtom h

theorem Parses.loosen {tight loose : Level} {xs : List Item} {e : Expression}
    (h : Parses tight xs e) (order : loose.depth ≤ tight.depth) : Parses loose xs e := by
  induction gap : tight.depth - loose.depth generalizing tight with
  | zero =>
    have same : tight = loose := depth_injective (by omega)
    exact same ▸ h
  | succ n ih =>
    have next := depth_looser tight
    exact ih h.looser (by omega) (by omega)

theorem Parses.arithmetic {op : Arithmetic} {xs ys : List Item} {l r : Expression} (i : Nat)
    (left : Parses (leftLevel op) xs l) (right : Parses (rightLevel (.arithmetic op)) ys r) :
    Parses (wholeLevel (.arithmetic op)) (xs ++ opItem i op :: ys) (.binary i op l r) := by
  cases op with
  | add => exact .sum i (.inl rfl) left right
  | subtract => exact .sum i (.inr rfl) left right
  | multiply => exact .product i (.inl rfl) left right
  | divide => exact .product i (.inr rfl) left right
  | power => exact .power i left right

/-! ## From what is pending to a derivation -/

def Keeps (next : Arithmetic) : List Pending → Prop
  | .operation _ top :: _ => top.precedes next = false
  | _ => True

def Fits (level : Level) : List Pending → Prop
  | .operation _ top :: _ => (rightLevel top).depth ≤ level.depth
  | _ => True

/-- The items that led to what is pending, a value being expected after them. -/
inductive Waits : List Item → List Step → List Pending → Prop where
  | start : Waits [] [] []
  | paren {xs written pending} (i : Nat) : Waits xs written pending →
      Waits (xs ++ [openItem i]) written (.paren i :: pending)
  | sign {xs written pending op s} (i : Nat) (isSign : signOf? op = some s) :
      Waits xs written pending →
      Waits (xs ++ [opItem i op]) written (.operation i (.sign s) :: pending)
  | arithmetic {xs ys written pending e} (i : Nat) (op : Arithmetic) :
      Waits xs written pending → Parses (leftLevel op) ys e → Keeps op pending →
      Waits (xs ++ (ys ++ [opItem i op])) (e.steps.reverse ++ written)
        (.operation i (.arithmetic op) :: pending)

/-- The same after a complete value of this level. -/
structure Holds (level : Level) (xs : List Item) (written : List Step)
    (pending : List Pending) : Prop where
  fits : Fits level pending
  split : ∃ before value earlier e, xs = before ++ value ∧
    written = e.steps.reverse ++ earlier ∧ Waits before earlier pending ∧ Parses level value e

theorem fits_signed (pending : List Pending) : Fits .signed pending := by
  rcases pending with _ | ⟨_ | ⟨_, _ | (_ | _ | _ | _ | _)⟩, _⟩ <;>
    simp [Fits, rightLevel, Level.depth]

theorem fits_atom (pending : List Pending) : Fits .atom pending := by
  rcases pending with _ | ⟨_ | ⟨_, _ | (_ | _ | _ | _ | _)⟩, _⟩ <;>
    simp [Fits, rightLevel, Level.depth]

theorem fits_of_keeps {op : Arithmetic} {pending : List Pending} (h : Keeps op pending) :
    Fits (wholeLevel (.arithmetic op)) pending := by
  cases pending with
  | nil => trivial
  | cons top rest =>
    cases top with
    | paren i => trivial
    | operation i top =>
      rcases top with s | other
      · cases op <;> simp_all [Keeps, Fits, Operation.precedes, Operation.rank, rank, wholeLevel,
          rightLevel, Level.depth]
      · cases op <;> cases other <;> simp_all [Keeps, Fits, Operation.precedes, Operation.rank,
          rank, wholeLevel, rightLevel, Level.depth]

theorem Holds.release {level : Level} {xs : List Item} {written : List Step} {i : Nat}
    {op : Operation} {pending : List Pending}
    (h : Holds level xs written (.operation i op :: pending)) :
    Holds (wholeLevel op) xs (⟨i, .operate op⟩ :: written) pending := by
  obtain ⟨fits, before, value, earlier, e, rfl, rfl, waits, parses⟩ := h
  have right := parses.loosen fits
  cases waits with
  | sign i isSign waits =>
    refine ⟨fits_signed _, _, opItem i _ :: value, earlier, .sign i _ e, by simp, ?_, waits,
      .signed i isSign right⟩
    simp [Expression.steps]
  | @arithmetic xs ys earlier _ left i op waits leftParses keeps =>
    refine ⟨fits_of_keeps keeps, xs, ys ++ opItem i op :: value, earlier,
      .binary i op left e, by simp, ?_, waits, leftParses.arithmetic i right⟩
    simp [Expression.steps]

theorem precedes_iff {top : Operation} {next : Arithmetic} :
    top.precedes next = true ↔ (leftLevel next).depth ≤ (wholeLevel top).depth := by
  rcases top with s | (_ | _ | _ | _ | _) <;> cases next <;>
    simp [Operation.precedes, Operation.rank, rank, leftLevel, wholeLevel, Level.depth]

theorem leftLevel_le_right {op : Operation} {next : Arithmetic}
    (h : (leftLevel next).depth ≤ (wholeLevel op).depth) :
    (leftLevel next).depth ≤ (rightLevel op).depth := by
  rcases op with s | (_ | _ | _ | _ | _) <;> cases next <;>
    simp_all [leftLevel, rightLevel, wholeLevel, Level.depth]

theorem keeps_releaseBefore (next : Arithmetic) (pending : List Pending)
    (written : List Step) : Keeps next (releaseBefore next pending written).1 := by
  induction pending generalizing written with
  | nil => trivial
  | cons top rest ih =>
    cases top with
    | paren i => trivial
    | operation i top =>
      rw [releaseBefore]
      split
      · exact ih _
      · next stays => simpa [Keeps] using stays

theorem Holds.before {level : Level} {xs : List Item} {written : List Step}
    {pending : List Pending} (next : Arithmetic) (h : Holds level xs written pending)
    (tight : (leftLevel next).depth ≤ level.depth) :
    ∃ l, (leftLevel next).depth ≤ Level.depth l ∧ Holds l xs
      (releaseBefore next pending written).2 (releaseBefore next pending written).1 := by
  induction pending generalizing written level with
  | nil => exact ⟨level, tight, h⟩
  | cons top rest ih =>
    cases top with
    | paren i => exact ⟨level, tight, h⟩
    | operation i top =>
      rw [releaseBefore]
      split
      · next released => exact ih h.release (precedes_iff.mp released)
      · exact ⟨level, tight, h⟩

theorem Holds.closed {level : Level} {xs : List Item} {written written' : List Step}
    {pending pending' : List Pending} (j : Nat) (h : Holds level xs written pending)
    (closed : releaseParen? pending written = some (pending', written')) :
    Holds .atom (xs ++ [closeItem j]) written' pending' := by
  induction pending generalizing written level with
  | nil => cases closed
  | cons top rest ih =>
    cases top with
    | operation i top => exact ih h.release closed
    | paren i =>
      simp only [releaseParen?, Option.some.injEq, Prod.mk.injEq] at closed
      obtain ⟨rfl, rfl⟩ := closed
      obtain ⟨_, before, value, earlier, e, rfl, rfl, waits, parses⟩ := h
      have inside : Parses .sum value e := parses.loosen (Nat.zero_le _)
      cases waits with
      | @paren xs _ _ _ waits =>
        exact ⟨fits_atom _, xs, openItem i :: (value ++ [closeItem j]), earlier, e, by simp, rfl,
          waits, .parens i j inside⟩

theorem Holds.finished {level : Level} {xs : List Item} {written steps : List Step}
    {pending : List Pending} (h : Holds level xs written pending)
    (finished : releaseAll pending written = .ok steps) :
    ∃ e, Parses .sum xs e ∧ steps = e.steps := by
  induction pending generalizing written level with
  | nil =>
    cases finished
    obtain ⟨_, before, value, earlier, e, rfl, rfl, waits, parses⟩ := h
    cases waits with
    | start => exact ⟨e, parses.loosen (Nat.zero_le _), by simp⟩
  | cons top rest ih =>
    cases top with
    | operation i top => exact ih h.release finished
    | paren i => cases finished

/-- The invariant of a conversion, over the items read so far. -/
def Explains (xs : List Item) (c : Conversion) : Prop :=
  if c.wantsValue then Waits xs c.written c.pending else Holds .atom xs c.written c.pending

theorem explains_step (xs : List Item) (c : Conversion) (x : Item) (d : Conversion)
    (h : Explains xs c) (placed : Places c x d) : Explains (xs ++ [x]) d := by
  cases placed with
  | operand i v =>
    exact ⟨fits_atom _, xs, [_], _, .operand i v, rfl, rfl, h, .operand i v⟩
  | openParen i => exact Waits.paren i h
  | sign i isSign => exact Waits.sign i isSign h
  | closeParen i closed => exact Holds.closed i h closed
  | @arithmetic written pending i op =>
    obtain ⟨l, tight, _, before, value, earlier, e, rfl, written_eq, waits, parses⟩ :=
      Holds.before op h (by cases op <;> decide)
    have keeps := keeps_releaseBefore op pending written
    have next := Waits.arithmetic i op waits (parses.loosen tight) keeps
    simpa [Explains, written_eq] using next

theorem parses_of_ofItems {xs : List Item} {steps : List Step} (nonempty : xs ≠ [])
    (h : ofItems xs = .ok steps) : ∃ e, Parses .sum xs e ∧ steps = e.steps := by
  unfold ofItems at h
  split at h
  · next c read =>
    have first : Explains [] start := Waits.start
    have explained := read_induction Explains explains_step first read
    unfold finish at h
    split at h
    · split at h
      · cases h
      · next missing => exact absurd (List.getLast?_eq_none_iff.mp missing) nonempty
    · next complete =>
      simp only [Explains, complete] at explained
      exact explained.finished h
  · cases h

/-! ## From a derivation to the steps -/

theorem releaseBefore_of_keeps {next : Arithmetic} {pending : List Pending}
    (keeps : Keeps next pending) (written : List Step) :
    releaseBefore next pending written = (pending, written) := by
  cases pending with
  | nil => rfl
  | cons top rest =>
    cases top with
    | paren i => rfl
    | operation i top =>
      have stays : top.precedes next = false := keeps
      simp [releaseBefore, stays]

/-- What may be pending where an expression of this level begins: nothing that would take a part
of it as its right operand. -/
def Hosts (level : Level) (pending : List Pending) : Prop :=
  ∀ next, level.depth ≤ (wholeLevel (.arithmetic next)).depth → Keeps next pending

theorem hosts_tighter {loose tight : Level} {pending : List Pending}
    (h : Hosts loose pending) (order : loose.depth ≤ tight.depth) : Hosts tight pending :=
  fun next inside => h next (Nat.le_trans order inside)

theorem hosts_right (i : Nat) (op : Operation) (pending : List Pending) :
    Hosts (rightLevel op) (.operation i op :: pending) := by
  intro next inside
  rcases op with _ | (_ | _ | _ | _ | _) <;> cases next <;>
    simp_all [Keeps, Operation.precedes, Operation.rank, rank, rightLevel, wholeLevel, Level.depth]

theorem hosts_left {op : Arithmetic} {pending : List Pending}
    (h : Hosts (wholeLevel (.arithmetic op)) pending) : Hosts (leftLevel op) pending := by
  intro next inside
  refine h next ?_
  cases op <;> cases next <;> simp_all [leftLevel, wholeLevel, Level.depth]

structure Settles (level : Level) (e : Expression) (written : List Step)
    (pending : List Pending) (c : Conversion) : Prop where
  complete : c.wantsValue = false
  before : ∀ next, (leftLevel next).depth ≤ level.depth →
    releaseBefore next c.pending c.written =
      releaseBefore next pending (e.steps.reverse ++ written)
  closed : releaseParen? c.pending c.written =
    releaseParen? pending (e.steps.reverse ++ written)
  finished : releaseAll c.pending c.written = releaseAll pending (e.steps.reverse ++ written)

/-- The items are read as the operand `e` wherever an expression of this level may begin. -/
def ReadAs (level : Level) (xs : List Item) (e : Expression) : Prop :=
  ∀ written pending, Hosts level pending →
    ∃ c, xs.foldlM place ⟨written, pending, true⟩ = .ok c ∧ Settles level e written pending c

theorem Settles.release {e whole : Expression} {written before : List Step} {i : Nat}
    {op : Operation} {pending : List Pending} {c : Conversion}
    (h : Settles (rightLevel op) e written (.operation i op :: pending) c)
    (steps : ⟨i, .operate op⟩ :: (e.steps.reverse ++ written) = whole.steps.reverse ++ before) :
    Settles (wholeLevel op) whole before pending c where
  complete := h.complete
  before next inside := by
    have released : op.precedes next = true := precedes_iff.mpr inside
    rw [h.before next (leftLevel_le_right inside), releaseBefore, released, if_pos rfl, steps]
  closed := by rw [h.closed, releaseParen?, steps]
  finished := by rw [h.finished, releaseAll, steps]

theorem readAs_operand (i : Nat) (v : Float) :
    ReadAs .atom [⟨i, .operand v⟩] (.operand i v) := by
  intro written pending _
  exact ⟨_, rfl, rfl, fun _ _ => rfl, rfl, rfl⟩

theorem read_parens {xs : List Item} {e : Expression} (i j : Nat) (h : ReadAs .sum xs e)
    (written : List Step) (pending : List Pending) :
    (openItem i :: (xs ++ [closeItem j])).foldlM place ⟨written, pending, true⟩ =
      .ok ⟨e.steps.reverse ++ written, pending, false⟩ := by
  obtain ⟨⟨written', pending', _⟩, read, settled⟩ :=
    h written (.paren i :: pending) (fun _ _ => trivial)
  obtain rfl := settled.complete
  have closing : Places ⟨written', pending', false⟩ (closeItem j)
      ⟨e.steps.reverse ++ written, pending, false⟩ := .closeParen j settled.closed
  rw [read_cons_eq_ok_iff]
  refine ⟨_, .openParen i, foldlM_append_eq_ok_iff.mpr ⟨_, read, ?_⟩⟩
  exact read_cons_eq_ok_iff.mpr ⟨_, closing, rfl⟩

theorem readAs_parens {xs : List Item} {e : Expression} (i j : Nat) (h : ReadAs .sum xs e) :
    ReadAs .atom (openItem i :: (xs ++ [closeItem j])) e := by
  intro written pending _
  exact ⟨_, read_parens i j h written pending, rfl, fun _ _ => rfl, rfl, rfl⟩

theorem readAs_sign {xs : List Item} {e : Expression} {op : Arithmetic} {s : Sign} (i : Nat)
    (isSign : signOf? op = some s) (h : ReadAs .signed xs e) :
    ReadAs .signed (opItem i op :: xs) (.sign i s e) := by
  intro written pending _
  obtain ⟨c, read, settled⟩ :=
    h written (.operation i (.sign s) :: pending) (hosts_right i (.sign s) pending)
  have onTop : Settles (rightLevel (.sign s)) e written (.operation i (.sign s) :: pending) c :=
    settled
  refine ⟨c, read_cons_eq_ok_iff.mpr ⟨_, .sign i isSign, read⟩, ?_⟩
  exact onTop.release (by simp [Expression.steps])

theorem readAs_arithmetic {xs ys : List Item} {l r : Expression} (i : Nat) (op : Arithmetic)
    (left : ReadAs (leftLevel op) xs l) (right : ReadAs (rightLevel (.arithmetic op)) ys r) :
    ReadAs (wholeLevel (.arithmetic op)) (xs ++ opItem i op :: ys) (.binary i op l r) := by
  intro written pending hosts
  have keeps : Keeps op pending := hosts op (Nat.le_refl _)
  obtain ⟨⟨written', pending', _⟩, readLeft, settledLeft⟩ := left written pending (hosts_left hosts)
  obtain rfl := settledLeft.complete
  have released := settledLeft.before op (Nat.le_refl _)
  simp only [releaseBefore_of_keeps keeps] at released
  have placed : Places ⟨written', pending', false⟩ (opItem i op) _ := .arithmetic i op
  rw [released] at placed
  obtain ⟨d, readRight, settledRight⟩ := right (l.steps.reverse ++ written)
    (.operation i (.arithmetic op) :: pending) (hosts_right i (.arithmetic op) pending)
  refine ⟨d, foldlM_append_eq_ok_iff.mpr ⟨_, readLeft, ?_⟩, ?_⟩
  · exact read_cons_eq_ok_iff.mpr ⟨_, placed, readRight⟩
  · exact settledRight.release (by simp [Expression.steps])

theorem ReadAs.looser {level : Level} {xs : List Item} {e : Expression}
    (h : ReadAs level xs e) : ReadAs level.looser xs e := by
  intro written pending hosts
  have order : level.looser.depth ≤ level.depth := by rw [depth_looser]; omega
  obtain ⟨c, read, settled⟩ := h written pending (hosts_tighter hosts order)
  exact ⟨c, read, settled.complete, fun next inside =>
    settled.before next (Nat.le_trans inside order), settled.closed, settled.finished⟩

theorem readAs_of_parses {level : Level} {xs : List Item} {e : Expression}
    (h : Parses level xs e) : ReadAs level xs e := by
  induction h with
  | sumOfProduct _ ih | productOfSigned _ ih | signedOfPower _ ih | powerOfAtom _ ih =>
    exact ih.looser
  | operand i v => exact readAs_operand i v
  | parens i j _ ih => exact readAs_parens i j ih
  | signed i isSign _ ih => exact readAs_sign i isSign ih
  | power i _ _ leftIh rightIh => exact readAs_arithmetic i .power leftIh rightIh
  | sum i isSum _ _ leftIh rightIh =>
    rcases isSum with rfl | rfl
    · exact readAs_arithmetic i .add leftIh rightIh
    · exact readAs_arithmetic i .subtract leftIh rightIh
  | product i isProduct _ _ leftIh rightIh =>
    rcases isProduct with rfl | rfl
    · exact readAs_arithmetic i .multiply leftIh rightIh
    · exact readAs_arithmetic i .divide leftIh rightIh

theorem ofItems_of_parses {xs : List Item} {e : Expression} (h : Parses .sum xs e) :
    ofItems xs = .ok e.steps := by
  obtain ⟨⟨written, pending, _⟩, read, settled⟩ := readAs_of_parses h [] [] (fun _ _ => trivial)
  obtain rfl := settled.complete
  have finished := settled.finished
  simp only [releaseAll, List.append_nil, List.reverse_reverse] at finished
  simp only [ofItems, start, read, finish, Bool.false_eq_true, ↓reduceIte, finished]

theorem expression_unique {xs : List Item} {e e' : Expression} (h : Parses .sum xs e)
    (h' : Parses .sum xs e') : e = e' := by
  have same := (ofItems_of_parses h).symm.trans (ofItems_of_parses h')
  exact Expression.steps_injective (Except.ok.inj same)

end TagFormula.Grammar
