import TagFormula.Json.Writer
import TagFormula.Proofs.JsonReading

/-!
JSON text is read back. What is written of a value, at any level of indentation, denotes that value,
if its numbers are finite and it is not nested deeper than the reader goes.
-/
namespace TagFormula.Json

/-! ## Strings and numbers -/

theorem hexDigits_of_control : ∀ n < 0x20,
    hexDigits 4 n = ['0', '0', Nat.digitChar (n / 16), Nat.digitChar (n % 16)] ∧
      unit? '0' '0' (Nat.digitChar (n / 16)) (Nat.digitChar (n % 16)) = some n ∧
      isHighUnit n = false ∧ isLowUnit n = false := by
  decide

theorem QuotedText.control {c : Char} (control : c.toNat < 0x20) {cs text : List Char}
    (h : QuotedText cs text) :
    QuotedText ('\\' :: 'u' :: hexDigits 4 c.toNat ++ cs) (c :: text) := by
  obtain ⟨digits, unit, high, low⟩ := hexDigits_of_control c.toNat control
  have quoted := h.unit unit high low
  rw [Char.ofNat_toNat] at quoted
  rw [digits]
  exact quoted

theorem QuotedText.escapeChar (c : Char) {cs text : List Char} (h : QuotedText cs text) :
    QuotedText (escapeChar c ++ cs) (c :: text) := by
  unfold Json.escapeChar
  split
  · next same => rw [same]; exact h.escape rfl
  split
  · next same => rw [same]; exact h.escape rfl
  split
  · next same => rw [same]; exact h.escape rfl
  split
  · next same => rw [same]; exact h.escape rfl
  split
  · next same => rw [same]; exact h.escape rfl
  split
  · next same => rw [same]; exact h.escape rfl
  split
  · next same => rw [same]; exact h.escape rfl
  split
  · next control => exact h.control control
  · next quote backslash _ _ _ _ _ glyph => exact h.plain quote backslash glyph

theorem quotedText_flatMap (text : List Char) : QuotedText (text.flatMap escapeChar) text := by
  induction text with
  | nil => exact .nil
  | cons c text ih =>
    rw [List.flatMap_cons]
    exact ih.escapeChar c

theorem denotes_quote (depth : Nat) (text : String) :
    Denotes depth (quote text) (.string text) := by
  have denotes : Denotes depth (quote text) _ := .string (quotedText_flatMap text.toList)
  rwa [String.ofList_toList] at denotes

theorem denotes_writeNumber (depth : Nat) {v : Float} (finite : v.isFinite = true) :
    Denotes depth (writeNumber v) (.number v) := by
  obtain ⟨d, read, value⟩ := takeNumber?_write Number.Style.stored finite ends_nil
  obtain ⟨text, same, spelled⟩ := numberText_of_takeNumber? read
  rw [List.append_nil, List.append_nil] at same
  rw [writeNumber, if_pos finite, same]
  exact .number spelled ((d.toFloat?_eq_some_iff v).mp value)

/-! ## Values -/

/-- A value that can be written and read: its numbers are finite, and there are at most so many
levels of nesting. -/
inductive Fits : Nat → Json → Prop where
  | null {depth : Nat} : Fits depth .null
  | bool {depth : Nat} (b : Bool) : Fits depth (.bool b)
  | number {depth : Nat} {v : Float} (finite : v.isFinite = true) : Fits depth (.number v)
  | string {depth : Nat} (text : String) : Fits depth (.string text)
  | array {depth : Nat} {items : List Json} (each : ∀ v ∈ items, Fits depth v) :
    Fits (depth + 1) (.array items)
  | object {depth : Nat} {members : List (String × Json)} (each : ∀ m ∈ members, Fits depth m.2) :
    Fits (depth + 1) (.object members)

theorem blanks_newLine (level : Nat) : Blanks (newLine level) := by
  refine List.forall_mem_cons.mpr ⟨rfl, fun c member => ?_⟩
  rw [List.eq_of_mem_replicate member]
  rfl

variable {depth : Nat}

theorem exists_items {v : Json} {items : List Json} {level : Nat}
    (each : ∀ w ∈ v :: items, Denotes depth (write level w) w) (outer : Nat) :
    ∃ parts : List (List Char × Json), parts ≠ [] ∧ (∀ i ∈ parts, Denotes depth i.1 i.2) ∧
      parts.map Prod.snd = v :: items ∧
      [','].intercalate (parts.map Prod.fst) =
        newLine level ++ write level v ++ writeItems level items ++ newLine outer := by
  induction items generalizing v with
  | nil =>
    refine ⟨[(newLine level ++ write level v ++ newLine outer, v)], List.cons_ne_nil _ _, ?_, rfl,
      ?_⟩
    · exact List.forall_mem_singleton.mpr
        ((each v List.mem_cons_self).padded (blanks_newLine level) (blanks_newLine outer))
    · simp [writeItems]
  | cons w items ih =>
    obtain ⟨first, others⟩ := List.forall_mem_cons.mp each
    obtain ⟨parts, nonempty, denote, values, text⟩ := ih others
    refine ⟨(newLine level ++ write level v ++ [], v) :: parts, List.cons_ne_nil _ _, ?_, ?_, ?_⟩
    · exact List.forall_mem_cons.mpr ⟨first.padded (blanks_newLine level) blanks_nil, denote⟩
    · rw [List.map_cons, values]
    · rw [List.map_cons, List.intercalate_cons_of_ne_nil (by simpa using nonempty), text,
        writeItems]
      simp

theorem nameText_quote (level : Nat) (name : String) :
    NameText (newLine level ++ quote name ++ [':']) name := by
  have text := NameText.intro (blanks_newLine level) (quotedText_flatMap name.toList) blanks_nil
  rw [String.ofList_toList] at text
  simpa [quote] using text

theorem blanks_space : Blanks [' '] := List.forall_mem_singleton.mpr rfl

theorem exists_members {m : String × Json} {members : List (String × Json)} {level : Nat}
    (each : ∀ n ∈ m :: members, Denotes depth (write level n.2) n.2) (outer : Nat) :
    ∃ parts : List MemberText, parts ≠ [] ∧ (∀ p ∈ parts, NameText p.nameText p.name) ∧
      (∀ p ∈ parts, Denotes depth p.valueText p.value) ∧
      parts.map (fun p => (p.name, p.value)) = m :: members ∧
      [','].intercalate (parts.map fun p => p.nameText ++ p.valueText) =
        newLine level ++ quote m.1 ++ [':', ' '] ++ write level m.2 ++ writeMembers level members ++
          newLine outer := by
  obtain ⟨first, others⟩ := List.forall_mem_cons.mp each
  induction members generalizing m with
  | nil =>
    refine ⟨[⟨_, [' '] ++ write level m.2 ++ newLine outer, m.1, m.2⟩], List.cons_ne_nil _ _,
      List.forall_mem_singleton.mpr (nameText_quote level m.1), ?_, rfl, ?_⟩
    · exact List.forall_mem_singleton.mpr (first.padded blanks_space (blanks_newLine outer))
    · simp [writeMembers]
  | cons n members ih =>
    obtain ⟨second, rest⟩ := List.forall_mem_cons.mp others
    obtain ⟨parts, nonempty, names, denote, values, text⟩ := ih others second rest
    refine ⟨⟨_, [' '] ++ write level m.2 ++ [], m.1, m.2⟩ :: parts, List.cons_ne_nil _ _,
      List.forall_mem_cons.mpr ⟨nameText_quote level m.1, names⟩, ?_, ?_, ?_⟩
    · exact List.forall_mem_cons.mpr ⟨first.padded blanks_space blanks_nil, denote⟩
    · rw [List.map_cons, values]
    · rw [List.map_cons, List.intercalate_cons_of_ne_nil (by simpa using nonempty), text,
        writeMembers]
      simp

theorem Fits.denotes {v : Json} (h : Fits depth v) (level : Nat) :
    Denotes depth (write level v) v := by
  induction h generalizing level with
  | null => exact .nullName
  | bool b =>
    cases b with
    | true => exact .trueName
    | false => exact .falseName
  | number finite => exact denotes_writeNumber _ finite
  | string text => exact denotes_quote _ text
  | @array depth items _ ih =>
    cases items with
    | nil => exact .emptyArray blanks_nil
    | cons v items =>
      obtain ⟨parts, nonempty, each, values, text⟩ :=
        exists_items (fun w member => ih w member (level + 1)) level
      have denotes := Denotes.array nonempty each
      rw [values, text] at denotes
      simpa [write] using denotes
  | @object depth members _ ih =>
    cases members with
    | nil => exact .emptyObject blanks_nil
    | cons m members =>
      obtain ⟨parts, nonempty, names, each, values, text⟩ :=
        exists_members (fun w member => ih w member (level + 1)) level
      have denotes := Denotes.object nonempty names each
      rw [values, text] at denotes
      simpa [write] using denotes

theorem Denotes.fits {cs : List Char} {v : Json} (h : Denotes depth cs v) : Fits depth v := by
  induction h with
  | nullName => exact .null
  | trueName => exact .bool true
  | falseName => exact .bool false
  | number _ rounds => exact .number rounds.finite
  | string => exact .string _
  | emptyArray => exact .array (List.forall_mem_nil _)
  | array _ _ ih => exact .array (List.forall_mem_map.mpr ih)
  | emptyObject => exact .object (List.forall_mem_nil _)
  | object _ _ _ ih => exact .object (List.forall_mem_map.mpr ih)
  | padded _ _ _ ih => exact ih

theorem read?_write {v : Json} (fits : Fits maxDepth v) :
    read? (String.ofList (write 0 v)) = some v := by
  rw [read?_eq_some_iff, String.toList_ofList]
  exact fits.denotes 0

end TagFormula.Json
