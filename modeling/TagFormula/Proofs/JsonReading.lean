import TagFormula.Proofs.JsonGrammar

/-!
JSON is read as the grammar says. Whatever text denotes a value is read as that value, with blanks
after it left over at most, and whatever is read as a value denotes it. Items and members are read
in the same way, as rows of parts with commas between them.
-/
namespace TagFormula.Json

open Number.Literal (isDigit)

/-! ## Blanks -/

theorem skipBlanks_cons {c : Char} (ink : isBlank c = false) (cs : List Char) :
    skipBlanks (c :: cs) = c :: cs := by
  simp [skipBlanks, ink]

theorem skipBlanks_skipBlanks (cs : List Char) : skipBlanks (skipBlanks cs) = skipBlanks cs :=
  List.dropWhile_idempotent isBlank cs

theorem skipBlanks_append {blanks : List Char} (h : Blanks blanks) (cs : List Char) :
    skipBlanks (blanks ++ cs) = skipBlanks cs :=
  List.dropWhile_append_of_pos h

theorem exists_blanks (cs : List Char) : ∃ blanks, cs = blanks ++ skipBlanks cs ∧ Blanks blanks :=
  ⟨cs.takeWhile isBlank, List.takeWhile_append_dropWhile.symm,
    List.all_eq_true.mp List.all_takeWhile⟩

theorem exists_blanks_before {cs rest : List Char} {c : Char} (first : skipBlanks cs = c :: rest) :
    ∃ blanks, cs = blanks ++ c :: rest ∧ Blanks blanks :=
  first ▸ exists_blanks cs

theorem blanks_nil : Blanks [] := List.forall_mem_nil _

theorem takeValue?_skipBlanks (depth : Nat) (cs : List Char) :
    takeValue? depth (skipBlanks cs) = takeValue? depth cs := by
  cases depth <;> rw [takeValue?, takeValue?, skipBlanks_skipBlanks]

/-! ## Rows -/

section Row

variable {α β : Type}

/-- Parts with commas between them, up to the sign that closes the row. -/
def takeRow? (close : Char) (take : List Char → Option (α × List Char)) :
    Nat → List Char → Option (List α × List Char)
  | 0, _ => none
  | fuel + 1, cs =>
    match take cs with
    | none => none
    | some (v, cs) =>
      match skipBlanks cs with
      | [] => none
      | c :: rest =>
        if c = ',' then (takeRow? close take fuel rest).map fun (vs, cs) => (v :: vs, cs)
        else if c = close then some ([v], rest)
        else none

theorem takeItems?_eq_takeRow? (item : List Char → Option (Json × List Char)) (fuel : Nat)
    (cs : List Char) : takeItems? item fuel cs = takeRow? ']' item fuel cs := by
  induction fuel generalizing cs with
  | zero => rfl
  | succ fuel ih =>
    rw [takeItems?, takeRow?]
    cases item cs with
    | none => rfl
    | some found =>
      obtain ⟨v, after⟩ := found
      simp only
      rcases skipBlanks after with _ | ⟨c, rest⟩
      · rfl
      · by_cases comma : c = ','
        · simp [comma, ih]
        · by_cases closed : c = ']' <;> simp [comma, closed]

theorem takeMembers?_eq_takeRow? (item : List Char → Option (Json × List Char)) (fuel : Nat)
    (cs : List Char) :
    takeMembers? item fuel cs = takeRow? '\x7d' (takeMember? item) fuel cs := by
  induction fuel generalizing cs with
  | zero => rfl
  | succ fuel ih =>
    rw [takeMembers?, takeRow?]
    cases takeMember? item cs with
    | none => rfl
    | some found =>
      obtain ⟨m, after⟩ := found
      simp only
      rcases skipBlanks after with _ | ⟨c, rest⟩
      · rfl
      · by_cases comma : c = ','
        · simp [comma, ih]
        · by_cases closed : c = '\x7d' <;> simp [comma, closed]

variable {close : Char} {take : List Char → Option (α × List Char)} {text : β → List Char}
  {value : β → α} {P : β → Prop}

/-- A row begins with a part. After a comma another row follows; after the closing sign nothing
does. -/
theorem takeRow?_succ_eq_some_iff {fuel : Nat} {cs rest : List Char} {vs : List α} :
    takeRow? close take (fuel + 1) cs = some (vs, rest) ↔
      ∃ v after c tail, take cs = some (v, after) ∧ skipBlanks after = c :: tail ∧
        (c = ',' ∧ (∃ others, takeRow? close take fuel tail = some (others, rest) ∧
            v :: others = vs) ∨
          c ≠ ',' ∧ c = close ∧ [v] = vs ∧ tail = rest) := by
  rw [takeRow?]
  constructor
  · intro read
    split at read
    · cases read
    · next v after first =>
      split at read
      · cases read
      · next c tail next =>
        refine ⟨v, after, c, tail, first, next, ?_⟩
        split at read
        · next comma =>
          obtain ⟨⟨others, left⟩, found, same⟩ := Option.map_eq_some_iff.mp read
          cases same
          exact .inl ⟨comma, others, found, rfl⟩
        · next comma =>
          split at read
          · next closed =>
            cases read
            exact .inr ⟨comma, closed, rfl, rfl⟩
          · cases read
  · rintro ⟨v, after, c, tail, first, next, ⟨comma, others, found, rfl⟩ | ⟨comma, closed, rfl, rfl⟩⟩
    · simp only [first, next, if_pos comma, found, Option.map_some]
    · simp only [first, next, if_neg comma, if_pos closed]

theorem exists_parts_of_takeRow?
    (part : ∀ {cs v after c rest}, take cs = some (v, after) → skipBlanks after = c :: rest →
      ∃ b, P b ∧ value b = v ∧ cs = text b ++ c :: rest)
    {fuel : Nat} {cs rest : List Char} {vs : List α}
    (read : takeRow? close take fuel cs = some (vs, rest)) :
    ∃ bs, bs ≠ [] ∧ (∀ b ∈ bs, P b) ∧ bs.map value = vs ∧
      cs = [','].intercalate (bs.map text) ++ close :: rest := by
  induction fuel generalizing cs vs with
  | zero => cases read
  | succ fuel ih =>
    obtain ⟨v, after, c, tail, first, next, last⟩ := takeRow?_succ_eq_some_iff.mp read
    obtain ⟨b, holds, rfl, rfl⟩ := part first next
    rcases last with ⟨rfl, others, found, rfl⟩ | ⟨_, rfl, rfl, rfl⟩
    · obtain ⟨bs, nonempty, each, rfl, rfl⟩ := ih found
      refine ⟨b :: bs, List.cons_ne_nil _ _, List.forall_mem_cons.mpr ⟨holds, each⟩, rfl, ?_⟩
      rw [List.map_cons, List.intercalate_cons_of_ne_nil (by simpa using nonempty)]
      simp
    · refine ⟨[b], List.cons_ne_nil _ _, List.forall_mem_singleton.mpr holds, rfl, ?_⟩
      rw [List.map_singleton, List.intercalate_singleton]

theorem takeRow?_of_parts (closes : close ≠ ',')
    (part : ∀ {b c rest}, P b → c = ',' ∨ c = close →
      ∃ after, take (text b ++ c :: rest) = some (value b, after) ∧ skipBlanks after = c :: rest)
    {bs : List β} (nonempty : bs ≠ []) (each : ∀ b ∈ bs, P b) (rest : List Char) :
    takeRow? close take bs.length ([','].intercalate (bs.map text) ++ close :: rest) =
      some (bs.map value, rest) := by
  induction bs with
  | nil => exact (nonempty rfl).elim
  | cons b bs ih =>
    obtain ⟨holds, others⟩ := List.forall_mem_cons.mp each
    rw [List.length_cons, takeRow?_succ_eq_some_iff]
    by_cases last : bs = []
    · obtain ⟨after, first, next⟩ := @part b close rest holds (.inr rfl)
      rw [last, List.map_singleton, List.intercalate_singleton]
      exact ⟨_, _, _, _, first, next, .inr ⟨closes, rfl, rfl, rfl⟩⟩
    · obtain ⟨after, first, next⟩ := part holds (.inl rfl)
      have split : [','].intercalate ((b :: bs).map text) ++ close :: rest =
          text b ++ ',' :: ([','].intercalate (bs.map text) ++ close :: rest) := by
        rw [List.map_cons, List.intercalate_cons_of_ne_nil (by simpa using last)]
        simp
      rw [split]
      exact ⟨_, _, _, _, first, next, .inl ⟨rfl, _, ih last others, rfl⟩⟩

theorem takeRow?_of_length_le {fuel more : Nat} {cs rest : List Char} {vs : List α}
    (read : takeRow? close take fuel cs = some (vs, rest)) (enough : vs.length ≤ more) :
    takeRow? close take more cs = some (vs, rest) := by
  induction fuel generalizing more cs vs with
  | zero => cases read
  | succ fuel ih =>
    obtain ⟨v, after, c, tail, first, next, last⟩ := takeRow?_succ_eq_some_iff.mp read
    cases more with
    | zero => rcases last with ⟨_, _, _, rfl⟩ | ⟨_, _, rfl, _⟩ <;> cases enough
    | succ more =>
      refine takeRow?_succ_eq_some_iff.mpr ⟨v, after, c, tail, first, next, ?_⟩
      rcases last with ⟨comma, others, found, rfl⟩ | closed
      · exact .inl ⟨comma, others, ih found (Nat.le_of_succ_le_succ enough), rfl⟩
      · exact .inr closed

theorem length_le_intercalate (parts : List (List Char)) :
    parts.length ≤ ([','].intercalate parts).length + 1 := by
  induction parts with
  | nil => exact Nat.zero_le _
  | cons part parts ih =>
    by_cases last : parts = []
    · simp [last]
    · rw [List.intercalate_cons_of_ne_nil last]
      simp only [List.length_cons, List.length_append, List.length_nil]
      omega

theorem takeRow?_skipBlanks (blanks : ∀ cs, take (skipBlanks cs) = take cs) (fuel : Nat)
    (cs : List Char) : takeRow? close take fuel (skipBlanks cs) = takeRow? close take fuel cs := by
  cases fuel with
  | zero => rfl
  | succ fuel => rw [takeRow?, takeRow?, blanks]

theorem takeRow?_length
    (part : ∀ {cs v after c rest}, take cs = some (v, after) → skipBlanks after = c :: rest →
      ∃ b, P b ∧ value b = v ∧ cs = text b ++ c :: rest)
    {fuel : Nat} {cs rest : List Char} {vs : List α}
    (read : takeRow? close take fuel cs = some (vs, rest)) :
    takeRow? close take cs.length cs = some (vs, rest) := by
  refine takeRow?_of_length_le read ?_
  obtain ⟨bs, _, _, rfl, rfl⟩ := exists_parts_of_takeRow? part read
  have counted := length_le_intercalate (bs.map text)
  rw [List.length_map] at counted
  rw [List.length_map, List.length_append, List.length_cons]
  omega

end Row

/-! ## What is read denotes the value -/

theorem takeMember?_skipBlanks (item : List Char → Option (Json × List Char)) (cs : List Char) :
    takeMember? item (skipBlanks cs) = takeMember? item cs := by
  rw [takeMember?, takeMember?, skipBlanks_skipBlanks]

def Sound (depth : Nat) : Prop :=
  ∀ cs v after, takeValue? depth cs = some (v, after) →
    ∃ text, cs = text ++ after ∧ Denotes depth text v

variable {depth : Nat}

namespace Sound

theorem exists_part (sound : Sound depth) {cs after rest : List Char} {v : Json} {c : Char}
    (read : takeValue? depth cs = some (v, after)) (next : skipBlanks after = c :: rest) :
    ∃ i : List Char × Json, Denotes depth i.1 i.2 ∧ i.2 = v ∧ cs = i.1 ++ c :: rest := by
  obtain ⟨text, rfl, denotes⟩ := sound _ _ _ read
  obtain ⟨blanks, rfl, inside⟩ := exists_blanks_before next
  exact ⟨([] ++ text ++ blanks, v), denotes.padded blanks_nil inside, rfl, by simp⟩

theorem exists_member (sound : Sound depth) {cs after rest : List Char} {found : String × Json}
    {c : Char} (read : takeMember? (takeValue? depth) cs = some (found, after))
    (next : skipBlanks after = c :: rest) :
    ∃ m : MemberText, (NameText m.nameText m.name ∧ Denotes depth m.valueText m.value) ∧
      (m.name, m.value) = found ∧ cs = m.nameText ++ m.valueText ++ c :: rest := by
  unfold takeMember? at read
  split at read
  · next opened =>
    obtain ⟨before, rfl, left⟩ := exists_blanks_before opened
    split at read
    · cases read
    · next unquoted =>
      obtain ⟨quoted, rfl, text⟩ := quotedText_of_unquote? unquoted
      split at read
      · next colon =>
        obtain ⟨between, rfl, right⟩ := exists_blanks_before colon
        obtain ⟨⟨v, _⟩, value, result⟩ := Option.map_eq_some_iff.mp read
        cases result
        obtain ⟨⟨valueText, _⟩, denotes, rfl, rfl⟩ := sound.exists_part value next
        exact ⟨⟨_, valueText, _, _⟩, ⟨.intro left text right, denotes⟩, rfl, by simp⟩
      · cases read
  · cases read

theorem items (sound : Sound depth) {fuel : Nat} {cs after : List Char} {vs : List Json}
    (row : takeItems? (takeValue? depth) fuel (skipBlanks cs) = some (vs, after)) :
    ∃ text, '[' :: cs = text ++ after ∧ Denotes (depth + 1) text (.array vs) := by
  rw [takeItems?_eq_takeRow?, takeRow?_skipBlanks (takeValue?_skipBlanks depth)] at row
  obtain ⟨items, nonempty, each, rfl, rfl⟩ := exists_parts_of_takeRow? sound.exists_part row
  exact ⟨_, by simp, .array nonempty each⟩

theorem members (sound : Sound depth) {fuel : Nat} {cs after : List Char}
    {ms : List (String × Json)}
    (row : takeMembers? (takeValue? depth) fuel (skipBlanks cs) = some (ms, after)) :
    ∃ text, '\x7b' :: cs = text ++ after ∧ Denotes (depth + 1) text (.object ms) := by
  rw [takeMembers?_eq_takeRow?, takeRow?_skipBlanks (takeMember?_skipBlanks _)] at row
  obtain ⟨members, nonempty, each, rfl, rfl⟩ := exists_parts_of_takeRow? sound.exists_member row
  exact ⟨_, by simp, .object nonempty (fun m inside => (each m inside).1) fun m inside =>
    (each m inside).2⟩

end Sound

theorem sound (depth : Nat) : Sound depth := by
  induction depth using Nat.strongRecOn with
  | ind depth ih =>
    intro cs v after read
    obtain ⟨before, front, left⟩ := exists_blanks cs
    suffices inked : ∃ text, skipBlanks cs = text ++ after ∧ Denotes depth text v by
      obtain ⟨text, same, denotes⟩ := inked
      refine ⟨before ++ text ++ [], front.trans ?_, denotes.padded left blanks_nil⟩
      rw [same]
      simp
    rw [takeValue?.eq_def] at read
    simp only at read
    split at read
    · next same =>
      cases read
      exact ⟨_, same, .nullName⟩
    · next same =>
      cases read
      exact ⟨_, same, .trueName⟩
    · next same =>
      cases read
      exact ⟨_, same, .falseName⟩
    · next same =>
      obtain ⟨⟨text, tail⟩, unquoted, result⟩ := Option.map_eq_some_iff.mp read
      cases result
      obtain ⟨quoted, rfl, inside⟩ := quotedText_of_unquote? unquoted
      exact ⟨_, by rw [same]; simp, .string inside⟩
    · next same =>
      rw [same]
      split at read
      · cases read
      · next depth =>
        split at read
        · next closed =>
          cases read
          obtain ⟨blanks, rfl, inside⟩ := exists_blanks_before closed
          exact ⟨_, by simp, .emptyArray inside⟩
        · obtain ⟨_, row, result⟩ := Option.map_eq_some_iff.mp read
          cases result
          exact (ih depth (Nat.lt_succ_self depth)).items row
    · next same =>
      rw [same]
      split at read
      · cases read
      · next depth =>
        split at read
        · next closed =>
          cases read
          obtain ⟨blanks, rfl, inside⟩ := exists_blanks_before closed
          exact ⟨_, by simp, .emptyObject inside⟩
        · obtain ⟨_, row, result⟩ := Option.map_eq_some_iff.mp read
          cases result
          exact (ih depth (Nat.lt_succ_self depth)).members row
    · split at read
      · cases read
      · next d _ number =>
        obtain ⟨v, value, result⟩ := Option.map_eq_some_iff.mp read
        cases result
        obtain ⟨text, same, spelled⟩ := numberText_of_takeNumber? number
        exact ⟨text, same, .number spelled ((d.toFloat?_eq_some_iff v).mp value)⟩

/-! ## What denotes a value is read -/

/-- What denotes a value is read as that value, whatever comes after it that does not go on with
a number. -/
def Reads (depth : Nat) (text : List Char) (v : Json) : Prop :=
  ∀ rest, Ends rest →
    ∃ after, takeValue? depth (text ++ rest) = some (v, after) ∧ skipBlanks after = skipBlanks rest

theorem ends_of_mark {c : Char} (mark : c = ',' ∨ c = ']' ∨ c = '\x7d') (rest : List Char) :
    Ends (c :: rest) ∧ skipBlanks (c :: rest) = c :: rest := by
  constructor
  · intro d first
    cases first
    rcases mark with rfl | rfl | rfl <;> decide
  · refine skipBlanks_cons ?_ rest
    rcases mark with rfl | rfl | rfl <;> rfl

theorem Reads.part {text : List Char} {v : Json} (reads : Reads depth text v) {c : Char}
    (mark : c = ',' ∨ c = ']' ∨ c = '\x7d') (rest : List Char) :
    ∃ after, takeValue? depth (text ++ c :: rest) = some (v, after) ∧
      skipBlanks after = c :: rest := by
  obtain ⟨ends, ink⟩ := ends_of_mark mark rest
  obtain ⟨after, read, next⟩ := reads (c :: rest) ends
  exact ⟨after, read, next.trans ink⟩

theorem takeMember?_append {nameText valueText : List Char} {name : String} {v : Json}
    (h : NameText nameText name) (reads : Reads depth valueText v) {c : Char}
    (mark : c = ',' ∨ c = ']' ∨ c = '\x7d') (rest : List Char) :
    ∃ after, takeMember? (takeValue? depth) (nameText ++ valueText ++ c :: rest) =
      some ((name, v), after) ∧ skipBlanks after = c :: rest := by
  obtain ⟨left, quoted, right⟩ := h
  obtain ⟨after, read, next⟩ := reads.part mark rest
  refine ⟨after, ?_, next⟩
  have opened (cs : List Char) : skipBlanks ('"' :: cs) = '"' :: cs :=
    skipBlanks_cons (by decide) cs
  have colon (cs : List Char) : skipBlanks (':' :: cs) = ':' :: cs :=
    skipBlanks_cons (by decide) cs
  simp only [List.append_assoc, List.cons_append, List.nil_append] at read ⊢
  rw [takeMember?, skipBlanks_append left, opened]
  simp only [quoted.unquote?_append, skipBlanks_append right, colon, read, Option.map_some]

theorem start_of_takeNumber? {cs : List Char} {r : Number.Decimal × List Char}
    (h : takeNumber? cs = some r) : ∃ c rest, cs = c :: rest ∧ (c = '-' ∨ isDigit c = true) := by
  obtain ⟨d, after⟩ := r
  obtain ⟨_, whole, tail, _, _, _, front, first, _⟩ := takeNumber?_parts h
  obtain ⟨rfl, isWhole⟩ := takeWhole?_spec first
  rcases front with ⟨rfl, _⟩ | ⟨rfl, _⟩
  · exact ⟨'-', _, rfl, .inl rfl⟩
  · obtain ⟨c, digits, rfl⟩ := List.exists_cons_of_ne_nil isWhole.nonempty
    exact ⟨c, _, rfl, .inr (isWhole.digits c List.mem_cons_self)⟩

theorem isBlank_of_start {c : Char} (start : c = '-' ∨ isDigit c = true) : isBlank c = false := by
  rcases start with rfl | digit
  · rfl
  · cases blank : isBlank c with
    | false => rfl
    | true =>
      simp only [isBlank, Bool.or_eq_true, beq_iff_eq] at blank
      rcases blank with ((rfl | rfl) | rfl) | rfl <;> cases digit

theorem takeValue?_eq_number {c : Char} (ink : isBlank c = false)
    (other : c ∉ ['n', 't', 'f', '"', '[', '\x7b']) (depth : Nat) (cs : List Char) :
    takeValue? depth (c :: cs) =
      (takeNumber? (c :: cs)).bind fun r => r.1.toFloat?.map fun v => (.number v, r.2) := by
  have begins {k : Char} {tail : List Char} (same : c :: cs = k :: tail) :
      k ∉ ['n', 't', 'f', '"', '[', '\x7b'] := (List.cons.inj same).1 ▸ other
  rw [takeValue?.eq_def]
  simp only
  rw [skipBlanks_cons ink]
  split
  · next same => exact absurd (by decide) (begins same)
  · next same => exact absurd (by decide) (begins same)
  · next same => exact absurd (by decide) (begins same)
  · next same => exact absurd (by decide) (begins same)
  · next same => exact absurd (by decide) (begins same)
  · next same => exact absurd (by decide) (begins same)
  · cases takeNumber? (c :: cs) <;> rfl

theorem takeValue?_of_number {cs rest : List Char} {d : Number.Decimal} {v : Float}
    (read : takeNumber? cs = some (d, rest)) (value : d.toFloat? = some v) (depth : Nat) :
    takeValue? depth cs = some (.number v, rest) := by
  obtain ⟨c, cs, rfl, start⟩ := start_of_takeNumber? read
  have other : c ∉ ['n', 't', 'f', '"', '[', '\x7b'] := by
    intro member
    simp only [List.mem_cons, List.not_mem_nil, or_false] at member
    rcases member with rfl | rfl | rfl | rfl | rfl | rfl <;> exact absurd start (by decide)
  rw [takeValue?_eq_number (isBlank_of_start start) other, read, Option.bind_some, value,
    Option.map_some]

theorem takeValue?_bracket (depth : Nat) (cs : List Char) :
    takeValue? depth (']' :: cs) = none := by
  rw [takeValue?_eq_number (by decide) (by decide), Option.bind_eq_none_iff]
  intro r read
  obtain ⟨c, rest, same, start⟩ := start_of_takeNumber? read
  cases same
  exact absurd start (by decide)

theorem ends_append {blanks rest : List Char} (h : Blanks blanks) (ends : Ends rest) :
    Ends (blanks ++ rest) := by
  refine forall_mem_head?_append (fun c first => ?_) ends
  have blank := h c (List.mem_of_mem_head? first)
  simp only [isBlank, Bool.or_eq_true, beq_iff_eq] at blank
  rcases blank with ((rfl | rfl) | rfl) | rfl <;> decide

theorem Reads.array {items : List (List Char × Json)} (nonempty : items ≠ [])
    (reads : ∀ i ∈ items, Reads depth i.1 i.2) :
    Reads (depth + 1) ('[' :: ([','].intercalate (items.map Prod.fst) ++ [']']))
      (.array (items.map Prod.snd)) := by
  intro rest _
  refine ⟨rest, ?_, rfl⟩
  have part {i : List Char × Json} {c : Char} {rest : List Char} (each : Reads depth i.1 i.2)
      (mark : c = ',' ∨ c = ']') := each.part (mark.imp_right .inl) rest
  have row := takeRow?_of_parts (by decide) part nonempty reads rest
  rw [← takeRow?_skipBlanks (takeValue?_skipBlanks depth)] at row
  have all := takeRow?_length (sound depth).exists_part row
  rw [← takeItems?_eq_takeRow?] at all
  rw [takeValue?.eq_def]
  simp only [List.cons_append, List.append_assoc, List.nil_append,
    skipBlanks_cons (show isBlank '[' = false by decide)]
  split
  · next closed =>
    rw [closed] at all
    rw [takeItems?_eq_takeRow?, List.length_cons, takeRow?, takeValue?_bracket] at all
    cases all
  · rw [all]
    rfl

theorem Reads.object {members : List MemberText} (nonempty : members ≠ [])
    (reads : ∀ m ∈ members, NameText m.nameText m.name ∧ Reads depth m.valueText m.value) :
    Reads (depth + 1)
      ('\x7b' :: ([','].intercalate (members.map fun m => m.nameText ++ m.valueText) ++ ['\x7d']))
      (.object (members.map fun m => (m.name, m.value))) := by
  intro rest _
  refine ⟨rest, ?_, rfl⟩
  have part {m : MemberText} {c : Char} {rest : List Char}
      (each : NameText m.nameText m.name ∧ Reads depth m.valueText m.value)
      (mark : c = ',' ∨ c = '\x7d') :=
    takeMember?_append each.1 each.2 (mark.imp_right .inr) rest
  have row := takeRow?_of_parts (by decide) part nonempty reads rest
  rw [← takeRow?_skipBlanks (takeMember?_skipBlanks _)] at row
  have all := takeRow?_length (sound depth).exists_member row
  rw [← takeMembers?_eq_takeRow?] at all
  rw [takeValue?.eq_def]
  simp only [List.cons_append, List.append_assoc, List.nil_append,
    skipBlanks_cons (show isBlank '\x7b' = false by decide)]
  split
  · next closed =>
    rw [closed] at all
    cases all
  · rw [all]
    rfl

theorem Denotes.reads {text : List Char} {v : Json} (h : Denotes depth text v) :
    Reads depth text v := by
  induction h with
  | nullName | trueName | falseName =>
    intro rest _
    refine ⟨rest, ?_, rfl⟩
    rw [takeValue?.eq_def]
    rfl
  | number text rounds =>
    intro rest ends
    obtain ⟨d, read, rfl, rfl⟩ := text.takeNumber?_append ends
    exact ⟨rest, takeValue?_of_number read ((d.toFloat?_eq_some_iff _).mpr rounds) _, rfl⟩
  | string quoted =>
    intro rest _
    refine ⟨rest, ?_, rfl⟩
    rw [takeValue?.eq_def]
    simp only [List.cons_append, List.append_assoc, List.nil_append,
      skipBlanks_cons (show isBlank '"' = false by decide), quoted.unquote?_append,
      Option.map_some]
  | emptyArray inside =>
    intro rest _
    refine ⟨rest, ?_, rfl⟩
    rw [takeValue?.eq_def]
    simp only [List.cons_append, List.append_assoc, List.nil_append,
      skipBlanks_cons (show isBlank '[' = false by decide), skipBlanks_append inside,
      skipBlanks_cons (show isBlank ']' = false by decide)]
  | array nonempty _ ih => exact .array nonempty ih
  | emptyObject inside =>
    intro rest _
    refine ⟨rest, ?_, rfl⟩
    rw [takeValue?.eq_def]
    simp only [List.cons_append, List.append_assoc, List.nil_append,
      skipBlanks_cons (show isBlank '\x7b' = false by decide), skipBlanks_append inside,
      skipBlanks_cons (show isBlank '\x7d' = false by decide)]
  | object nonempty names _ ih =>
    exact .object nonempty fun m member => ⟨names m member, ih m member⟩
  | padded left _ right ih =>
    intro rest ends
    obtain ⟨after, read, next⟩ := ih _ (ends_append right ends)
    refine ⟨after, ?_, next.trans (skipBlanks_append right rest)⟩
    rw [List.append_assoc, List.append_assoc, ← takeValue?_skipBlanks, skipBlanks_append left,
      takeValue?_skipBlanks, read]

/-! ## Whole texts -/

/-- A text is read as the one value that it denotes, and refused if it denotes none. -/
theorem read?_eq_some_iff {text : String} {v : Json} :
    read? text = some v ↔ Denotes maxDepth text.toList v := by
  constructor
  · intro read
    unfold read? at read
    split at read
    · next w after value =>
      split at read
      · next nothing =>
        cases read
        obtain ⟨cs, same, denotes⟩ := sound maxDepth _ _ _ value
        obtain ⟨blanks, rest, inside⟩ := exists_blanks after
        rw [List.isEmpty_iff.mp nothing, List.append_nil] at rest
        rw [same, rest]
        exact denotes.padded blanks_nil inside
      · cases read
    · cases read
  · intro denotes
    obtain ⟨after, read, next⟩ := denotes.reads [] ends_nil
    rw [List.append_nil] at read
    rw [read?, read]
    simp only [next]
    rfl

end TagFormula.Json
