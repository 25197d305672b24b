import TagFormula.Proofs.Placement

/-!
Faults in the structure of items. What is read without a fault can always be completed, so a
conversion stops right after the longest beginning that can be. Which fault it is depends on
two things only: whether a value is expected, and which parentheses are open.
-/
namespace TagFormula.Rpn

open Grammar (opItem)

def Viable (xs : List Item) : Prop := ∃ rest steps, ofItems (xs ++ rest) = .ok steps

structure LongestViable (p xs : List Item) : Prop where
  begins : p <+: xs
  viable : Viable p
  longest : ∀ q, q <+: xs → Viable q → q.length ≤ p.length

def expectsValue (xs : List Item) : Bool :=
  match xs.getLast?.map Item.lexeme with
  | some (.operand _) | some (.operator .closeParen) => false
  | _ => true

def track (outer : List Nat) (item : Item) : List Nat :=
  match item.lexeme with
  | .operator .openParen => item.index :: outer
  | .operator .closeParen => outer.tail
  | _ => outer

def openParens (xs : List Item) : List Nat := xs.foldl track []

/-- What is wrong with an item right after a beginning that is in order. -/
inductive Misplaced (p : List Item) : Item → StructureFault.Kind → Prop where
  | operand (i : Nat) (v : Float) : expectsValue p = false →
    Misplaced p ⟨i, .operand v⟩ .unexpectedOperand
  | openParen (i : Nat) : expectsValue p = false → Misplaced p (openItem i) .unexpectedOperand
  | closeParen (i : Nat) : expectsValue p = true → Misplaced p (closeItem i) .missingOperand
  | operator (i : Nat) (op : Arithmetic) : expectsValue p = true →
    op = .multiply ∨ op = .divide ∨ op = .power → Misplaced p (opItem i op) .missingOperand
  | unopened (i : Nat) : expectsValue p = false → openParens p = [] →
    Misplaced p (closeItem i) .unopenedParen

/-- What is wrong with items that are in order but end too early. -/
inductive Unfinished (xs : List Item) : StructureFault → Prop where
  | operand (last : Item) : expectsValue xs = true → xs.getLast? = some last →
    Unfinished xs ⟨last.index, .missingOperand⟩
  | paren (i : Nat) (outer : List Nat) : expectsValue xs = false → openParens xs = i :: outer →
    Unfinished xs ⟨i, .unclosedParen⟩

/-! ## Pending parentheses -/

def parens : List Pending → List Nat
  | [] => []
  | .paren i :: rest => i :: parens rest
  | .operation _ _ :: rest => parens rest

theorem parens_releaseBefore (next : Arithmetic) (pending : List Pending)
    (written : List Step) : parens (releaseBefore next pending written).1 = parens pending := by
  induction pending generalizing written with
  | nil => rfl
  | cons top rest ih =>
    cases top with
    | paren i => rfl
    | operation i top =>
      rw [releaseBefore]
      split
      · exact ih _
      · rfl

theorem releaseParen_of_none_open {pending : List Pending} (written : List Step)
    (h : parens pending = []) : releaseParen? pending written = none := by
  induction pending generalizing written with
  | nil => rfl
  | cons top rest ih =>
    cases top with
    | paren i => cases h
    | operation i top => exact ih _ h

theorem releaseParen_of_open {pending : List Pending} {i : Nat} {outer : List Nat}
    (written : List Step) (h : parens pending = i :: outer) :
    ∃ pending' written', releaseParen? pending written = some (pending', written') ∧
      parens pending' = outer := by
  induction pending generalizing written with
  | nil => cases h
  | cons top rest ih =>
    cases top with
    | paren j => exact ⟨rest, written, rfl, (List.cons.inj h).2⟩
    | operation j top => exact ih _ h

theorem releaseAll_of_none_open {pending : List Pending} (written : List Step)
    (h : parens pending = []) : ∃ steps, releaseAll pending written = .ok steps := by
  induction pending generalizing written with
  | nil => exact ⟨_, rfl⟩
  | cons top rest ih =>
    cases top with
    | paren i => cases h
    | operation i top => exact ih _ h

theorem releaseAll_of_open {pending : List Pending} {i : Nat} {outer : List Nat}
    (written : List Step) (h : parens pending = i :: outer) :
    releaseAll pending written = .error ⟨i, .unclosedParen⟩ := by
  induction pending generalizing written with
  | nil => cases h
  | cons top rest ih =>
    cases top with
    | paren j =>
      obtain ⟨rfl, _⟩ := List.cons.inj h
      rfl
    | operation j top => exact ih _ h

/-! ## What a conversion knows of the items read -/

structure Knows (xs : List Item) (c : Conversion) : Prop where
  value : c.wantsValue = expectsValue xs
  parens : parens c.pending = openParens xs

theorem openParens_snoc (xs : List Item) (x : Item) :
    openParens (xs ++ [x]) = track (openParens xs) x := by
  simp [openParens]

theorem knows_step (xs : List Item) (c : Conversion) (x : Item) (d : Conversion)
    (h : Knows xs c) (placed : Places c x d) : Knows (xs ++ [x]) d := by
  have known := h.parens
  refine ⟨?_, ?_⟩
  · cases placed <;> simp [expectsValue, openItem, closeItem, opItem]
  · rw [openParens_snoc]
    cases placed with
    | operand i v => exact known
    | openParen i => exact congrArg (List.cons i) known
    | sign i isSign => exact known
    | arithmetic i op => exact (parens_releaseBefore op _ _).trans known
    | @closeParen written pending pending' written' i closed =>
      simp only at known
      change parens pending' = (openParens xs).tail
      cases opened : parens pending with
      | nil =>
        rw [releaseParen_of_none_open written opened] at closed
        cases closed
      | cons j outer =>
        obtain ⟨_, _, found, rest⟩ := releaseParen_of_open written opened
        rw [found] at closed
        cases closed
        rw [← known, opened, rest, List.tail_cons]

theorem knows_of_read {xs : List Item} {c : Conversion} (read : xs.foldlM place start = .ok c) :
    Knows xs c := by
  have first : Knows [] start := ⟨rfl, rfl⟩
  exact read_induction Knows knows_step first read

/-! ## Completing what has been read -/

theorem close_all {c : Conversion} (complete : c.wantsValue = false) :
    ∃ d steps, (List.replicate (parens c.pending).length (closeItem 0)).foldlM place c = .ok d ∧
      d.wantsValue = false ∧ releaseAll d.pending d.written = .ok steps := by
  obtain ⟨written, pending, _⟩ := c
  obtain rfl := complete
  induction opened : parens pending generalizing written pending with
  | nil =>
    obtain ⟨steps, released⟩ := releaseAll_of_none_open written opened
    exact ⟨_, steps, rfl, rfl, released⟩
  | cons i outer ih =>
    obtain ⟨pending', written', closed, rest⟩ := releaseParen_of_open written opened
    obtain ⟨d, steps, read, finished⟩ := ih written' pending' rest
    refine ⟨d, steps, ?_, finished⟩
    rw [List.length_cons, List.replicate_succ, read_cons_eq_ok_iff]
    exact ⟨_, .closeParen 0 closed, read⟩

theorem viable_of_complete {xs : List Item} {c : Conversion}
    (read : xs.foldlM place start = .ok c) (complete : c.wantsValue = false) : Viable xs := by
  obtain ⟨d, steps, closing, final, released⟩ := close_all complete
  have all := foldlM_append_eq_ok_iff.mpr ⟨c, read, closing⟩
  refine ⟨List.replicate (parens c.pending).length (closeItem 0), steps, ?_⟩
  simp only [ofItems, all, finish, final, Bool.false_eq_true, ↓reduceIte, released]

theorem viable_of_append {xs ys : List Item} (h : Viable (xs ++ ys)) : Viable xs := by
  obtain ⟨rest, steps, converted⟩ := h
  exact ⟨ys ++ rest, steps, by rwa [List.append_assoc] at converted⟩

theorem viable_iff {xs : List Item} : Viable xs ↔ ∃ c, xs.foldlM place start = .ok c := by
  constructor
  · rintro ⟨rest, steps, converted⟩
    unfold ofItems at converted
    split at converted
    · next d read =>
      obtain ⟨c, first, _⟩ := foldlM_append_eq_ok_iff.mp read
      exact ⟨c, first⟩
    · cases converted
  · rintro ⟨c, read⟩
    cases wants : c.wantsValue with
    | false => exact viable_of_complete read wants
    | true =>
      obtain ⟨written, pending, _⟩ := c
      obtain rfl := wants
      have operand : [⟨0, .operand 0⟩].foldlM place ⟨written, pending, true⟩ = .ok _ :=
        read_cons_eq_ok_iff.mpr ⟨_, .operand 0 0, rfl⟩
      have more := foldlM_append_eq_ok_iff.mpr ⟨_, read, operand⟩
      exact viable_of_append (viable_of_complete more rfl)

/-! ## Where and why a conversion stops -/

theorem misplaced_of_refused {p : List Item} {c : Conversion} {item : Item}
    {fault : StructureFault} (known : Knows p c) (refused : place c item = .error fault) :
    fault.index = item.index ∧ Misplaced p item fault.kind := by
  obtain ⟨written, pending, wants⟩ := c
  obtain ⟨value, opened⟩ := known
  simp only at value opened
  obtain ⟨i, v | op | _ | _⟩ := item <;> cases wants <;>
    simp only [place, Bool.false_eq_true, ↓reduceIte, Except.error.injEq, reduceCtorEq] at refused
  · subst fault
    exact ⟨rfl, .operand i v value.symm⟩
  · cases op with
    | add | subtract => cases refused
    | multiply => cases refused; exact ⟨rfl, .operator i .multiply value.symm (by simp)⟩
    | divide => cases refused; exact ⟨rfl, .operator i .divide value.symm (by simp)⟩
    | power => cases refused; exact ⟨rfl, .operator i .power value.symm (by simp)⟩
  · subst fault
    exact ⟨rfl, .openParen i value.symm⟩
  · split at refused
    · cases refused
    · next unclosed =>
      cases refused
      refine ⟨rfl, .unopened i value.symm ?_⟩
      cases none_open : parens pending with
      | nil => exact opened ▸ none_open
      | cons j outer =>
        obtain ⟨_, _, found, _⟩ := releaseParen_of_open written none_open
        rw [found] at unclosed
        cases unclosed
  · subst fault
    exact ⟨rfl, .closeParen i value.symm⟩

theorem longestViable_of_refused {p rest : List Item} {item : Item} {c : Conversion}
    {fault : StructureFault} (read : p.foldlM place start = .ok c)
    (refused : place c item = .error fault) : LongestViable p (p ++ item :: rest) := by
  refine ⟨List.prefix_append _ _, viable_iff.mpr ⟨c, read⟩, ?_⟩
  intro q begins viable
  refine Nat.le_of_not_lt fun longer => ?_
  have past : p ++ [item] <+: q :=
    List.prefix_of_prefix_length_le ⟨rest, by simp⟩ begins (by simpa using Nat.succ_le_of_lt longer)
  obtain ⟨tail, rfl⟩ := past
  obtain ⟨d, reading⟩ := viable_iff.mp (viable_of_append viable)
  obtain ⟨m, first, last⟩ := foldlM_append_eq_ok_iff.mp reading
  rw [read] at first
  cases first
  obtain ⟨_, placed, _⟩ := read_cons_eq_ok_iff.mp last
  rw [place_of_places placed] at refused
  cases refused

theorem LongestViable.unique {p q xs : List Item} (hp : LongestViable p xs)
    (hq : LongestViable q xs) : p = q := by
  have le := hq.longest p hp.begins hp.viable
  have ge := hp.longest q hq.begins hq.viable
  exact (List.prefix_of_prefix_length_le hp.begins hq.begins le).eq_of_length (by omega)

theorem unfinished_of_refused {xs : List Item} {c : Conversion} {fault : StructureFault}
    (known : Knows xs c) (refused : finish xs c = .error fault) : Unfinished xs fault := by
  unfold finish at refused
  split at refused
  · next wants =>
    split at refused
    · next last found =>
      cases refused
      exact .operand last (known.value ▸ wants) found
    · cases refused
  · next complete =>
    have value : expectsValue xs = false := by simpa [known.value] using complete
    cases opened : parens c.pending with
    | nil =>
      obtain ⟨steps, released⟩ := releaseAll_of_none_open c.written opened
      rw [released] at refused
      cases refused
    | cons i outer =>
      rw [releaseAll_of_open c.written opened] at refused
      cases refused
      exact .paren i outer value (known.parens ▸ opened)

theorem refused_cases {xs : List Item} {fault : StructureFault}
    (refused : ofItems xs = .error fault) :
    (∃ p item rest, xs = p ++ item :: rest ∧ LongestViable p xs ∧
        fault.index = item.index ∧ Misplaced p item fault.kind) ∨
      (LongestViable xs xs ∧ Unfinished xs fault) := by
  unfold ofItems at refused
  split at refused
  · next c read =>
    refine .inr ⟨⟨List.prefix_refl _, viable_iff.mpr ⟨c, read⟩, ?_⟩,
      unfinished_of_refused (knows_of_read read) refused⟩
    exact fun q begins _ => begins.length_le
  · next stopped read =>
    cases refused
    obtain ⟨p, item, rest, c, rfl, first, last⟩ := read_stops read
    have reason := misplaced_of_refused (knows_of_read first) last
    exact .inl ⟨p, item, rest, rfl, longestViable_of_refused first last, reason⟩

/-! ## Positions of faults -/

theorem openParens_subset (xs : List Item) : openParens xs ⊆ xs.map Item.index := by
  suffices ∀ outer, xs.foldl track outer ⊆ outer ++ xs.map Item.index from this []
  induction xs with
  | nil => simp
  | cons x xs ih =>
    intro outer i member
    rw [List.foldl_cons] at member
    rcases List.mem_append.mp (ih _ member) with before | later
    · unfold track at before
      split at before
      · rcases List.mem_cons.mp before with rfl | earlier
        · simp
        · exact List.mem_append_left _ earlier
      · exact List.mem_append_left _ (List.mem_of_mem_tail before)
      · exact List.mem_append_left _ before
    · exact List.mem_append_right _ (List.mem_cons_of_mem _ later)

theorem fault_index_mem {xs : List Item} {fault : StructureFault}
    (refused : ofItems xs = .error fault) : fault.index ∈ xs.map Item.index := by
  rcases refused_cases refused with ⟨p, item, rest, rfl, _, same, _⟩ | ⟨_, unfinished⟩
  · simp [same]
  · cases unfinished with
    | operand last _ found => exact List.mem_map_of_mem (List.mem_of_getLast? found)
    | paren i outer _ opened => exact openParens_subset xs (by simp [opened])

theorem lt_length_of_mem_items {f : Formula} {i : Nat}
    (member : i ∈ (items f).map Item.index) : i < f.length := by
  obtain ⟨item, found, rfl⟩ := List.mem_map.mp member
  obtain ⟨j, inside, rfl⟩ := List.mem_mapIdx.mp found
  exact inside

/-- A fault is that of the first item after the longest beginning that can be completed, or if
that is all there is, of what is missing at its end. -/
theorem fault_after_longest_viable {xs : List Item} {fault : StructureFault}
    (refused : ofItems xs = .error fault) :
    (∃ p, LongestViable p xs) ∧
    (∀ p, LongestViable p xs →
      (∀ item rest, xs = p ++ item :: rest →
        fault.index = item.index ∧ Misplaced p item fault.kind) ∧
      (p = xs → Unfinished xs fault)) ∧
    (∀ f, xs = items f → fault.index < f.length) := by
  have position : ∀ f, xs = items f → fault.index < f.length := by
    rintro f rfl
    exact lt_length_of_mem_items (fault_index_mem refused)
  rcases refused_cases refused with ⟨p, item, rest, split, longest, reason⟩ | ⟨longest, unfinished⟩
  · refine ⟨⟨p, longest⟩, fun q other => ?_, position⟩
    obtain rfl := other.unique longest
    constructor
    · intro item' rest' split'
      obtain ⟨rfl, _⟩ := List.cons.inj (List.append_cancel_left (split.symm.trans split'))
      exact reason
    · intro whole
      simp [split] at whole
  · refine ⟨⟨xs, longest⟩, fun q other => ?_, position⟩
    obtain rfl := other.unique longest
    constructor
    · intro item rest split
      simp at split
    · exact fun _ => unfinished

def strayParen : List Item :=
  [openItem 0, ⟨1, .operand 2⟩, closeItem 2, closeItem 3, ⟨4, .operand 3⟩]

theorem fault_of_strayParen :
    ofItems strayParen = .error ⟨3, .unopenedParen⟩ ∧
      ∃ p, LongestViable p strayParen ∧ ∀ item rest, strayParen = p ++ item :: rest →
        3 = item.index ∧ Misplaced p item .unopenedParen := by
  have refused : ofItems strayParen = .error ⟨3, .unopenedParen⟩ := rfl
  obtain ⟨⟨p, longest⟩, reasons, _⟩ := fault_after_longest_viable refused
  exact ⟨refused, p, longest, (reasons p longest).1⟩

end TagFormula.Rpn
