import TagFormula.Json.Reader
import TagFormula.Proofs.LiteralNumber

/-!
JSON as a language. The grammar says which texts denote which values, without a word about how a
text is taken apart: names, numbers, quoted strings, and arrays and objects of values nested to a
depth. The parts that hold no other values, numbers and strings, are read exactly as it says.
-/
namespace TagFormula.Json

open Number (signed)
open Number.Literal (isDigit ofDigits span_spec PowerText IsPower exists_signText value_literal)

/-! ## The grammar -/

def Blanks (cs : List Char) : Prop := ∀ c ∈ cs, isBlank c = true

/-- A number, whether it has a minus sign in front, and the number it denotes: digits of which the
first is zero only if it is alone, perhaps a point with digits after it, perhaps a power of ten. -/
inductive NumberText : List Char → Bool → ℚ → Prop
  | intro {negative : Bool} {whole fraction power : List Char} {e : Int} (isWhole : IsWhole whole)
      (digits : ∀ c ∈ fraction, isDigit c = true) (powerText : PowerText e power) :
    NumberText
      (if negative then '-' :: (whole ++ pointed fraction ++ power)
        else whole ++ pointed fraction ++ power)
      negative
      (signed negative ((ofDigits whole + ofDigits fraction / 10 ^ fraction.length) * 10 ^ e))

/-- What stands between two quotes, and the characters it means. -/
inductive QuotedText : List Char → List Char → Prop
  | nil : QuotedText [] []
  | plain {c : Char} {cs text : List Char} (quote : c ≠ '"') (backslash : c ≠ '\\')
      (glyph : ¬c.toNat < 0x20) (rest : QuotedText cs text) : QuotedText (c :: cs) (c :: text)
  | escape {e c : Char} {cs text : List Char} (escape : unescape? e = some c)
      (rest : QuotedText cs text) : QuotedText ('\\' :: e :: cs) (c :: text)
  | unit {a b c d : Char} {n : Nat} {cs text : List Char} (unit : unit? a b c d = some n)
      (high : isHighUnit n = false) (low : isLowUnit n = false) (rest : QuotedText cs text) :
    QuotedText ('\\' :: 'u' :: a :: b :: c :: d :: cs) (Char.ofNat n :: text)
  | pair {a b c d e f g h : Char} {n m : Nat} {cs text : List Char} (first : unit? a b c d = some n)
      (high : isHighUnit n = true) (second : unit? e f g h = some m) (low : isLowUnit m = true)
      (rest : QuotedText cs text) :
    QuotedText ('\\' :: 'u' :: a :: b :: c :: d :: '\\' :: 'u' :: e :: f :: g :: h :: cs)
      (Char.ofNat (0x10000 + (n - 0xd800) * 0x400 + (m - 0xdc00)) :: text)

inductive NameText : List Char → String → Prop
  | intro {before cs text after : List Char} (left : Blanks before) (quoted : QuotedText cs text)
      (right : Blanks after) :
    NameText (before ++ '"' :: (cs ++ '"' :: (after ++ [':']))) (String.ofList text)

structure MemberText where
  nameText : List Char
  valueText : List Char
  name : String
  value : Json

/-- A text, with any blanks around it, and the value it denotes. Arrays and objects may be nested
this deep, and a number is rounded to a finite double. -/
inductive Denotes : Nat → List Char → Json → Prop
  | nullName {depth : Nat} : Denotes depth ['n', 'u', 'l', 'l'] .null
  | trueName {depth : Nat} : Denotes depth ['t', 'r', 'u', 'e'] (.bool true)
  | falseName {depth : Nat} : Denotes depth ['f', 'a', 'l', 's', 'e'] (.bool false)
  | number {depth : Nat} {cs : List Char} {negative : Bool} {x : ℚ} {v : Float}
      (text : NumberText cs negative x) (rounds : Number.Binary64.RoundsTo negative x v) :
    Denotes depth cs (.number v)
  | string {depth : Nat} {cs text : List Char} (quoted : QuotedText cs text) :
    Denotes depth ('"' :: (cs ++ ['"'])) (.string (String.ofList text))
  | emptyArray {depth : Nat} {blanks : List Char} (inside : Blanks blanks) :
    Denotes (depth + 1) ('[' :: (blanks ++ [']'])) (.array [])
  | array {depth : Nat} {items : List (List Char × Json)} (some : items ≠ [])
      (each : ∀ i ∈ items, Denotes depth i.1 i.2) :
    Denotes (depth + 1) ('[' :: ([','].intercalate (items.map Prod.fst) ++ [']']))
      (.array (items.map Prod.snd))
  | emptyObject {depth : Nat} {blanks : List Char} (inside : Blanks blanks) :
    Denotes (depth + 1) ('\x7b' :: (blanks ++ ['\x7d'])) (.object [])
  | object {depth : Nat} {members : List MemberText} (some : members ≠ [])
      (names : ∀ m ∈ members, NameText m.nameText m.name)
      (each : ∀ m ∈ members, Denotes depth m.valueText m.value) :
    Denotes (depth + 1)
      ('\x7b' :: ([','].intercalate (members.map fun m => m.nameText ++ m.valueText) ++ ['\x7d']))
      (.object (members.map fun m => (m.name, m.value)))
  | padded {depth : Nat} {before cs after : List Char} {v : Json} (left : Blanks before)
      (denotes : Denotes depth cs v) (right : Blanks after) :
    Denotes depth (before ++ cs ++ after) v

/-! ## Numbers -/

theorem takeWhole?_spec {cs ds rest : List Char} (read : takeWhole? cs = some (ds, rest)) :
    cs = ds ++ rest ∧ IsWhole ds := by
  unfold takeWhole? at read
  split at read
  · cases read
    exact ⟨rfl, isWhole_zero⟩
  · next other =>
    obtain ⟨ds, rest, span, rfl, digits, _⟩ := span_spec cs
    simp only [span] at read
    split at read
    · cases read
    · next full =>
      cases read
      have some : ds ≠ [] := by simpa using full
      refine ⟨rfl, isWhole_of_head? digits some fun zero => ?_⟩
      obtain ⟨tail, rfl⟩ := List.head?_eq_some_iff.mp zero
      exact other _ rfl

theorem takeFraction?_spec {cs fs rest : List Char} (read : takeFraction? cs = some (fs, rest)) :
    cs = pointed fs ++ rest ∧ ∀ c ∈ fs, isDigit c = true := by
  unfold takeFraction? at read
  split at read
  · next after =>
    obtain ⟨ds, rest, span, rfl, digits, _⟩ := span_spec after
    simp only [span] at read
    split at read
    · cases read
    · next full =>
      cases read
      have some : 0 < fs.length := List.length_pos_iff.mpr (by simpa using full)
      exact ⟨by rw [pointed_of_length_pos some]; rfl, digits⟩
  · cases read
    exact ⟨rfl, List.forall_mem_nil _⟩

theorem takePower?_spec {cs rest : List Char} {e : Int} (read : takePower? cs = some (e, rest)) :
    ∃ power, cs = power ++ rest ∧ PowerText e power := by
  cases cs with
  | nil =>
    cases read
    exact ⟨[], rfl, .none⟩
  | cons c cs =>
    rw [takePower?] at read
    split at read
    · next letter =>
      obtain ⟨sign, negative, body, rfl, signText, taken⟩ := exists_signText cs
      obtain ⟨ds, after, span, rfl, digits, _⟩ := span_spec body
      simp only [taken, span] at read
      split at read
      · cases read
      · next full =>
        cases read
        have signed : sign = [] ∨ ∃ s, sign = [s] ∧ Number.Literal.isSign s = true := by
          cases signText with
          | none => exact .inl rfl
          | plus => exact .inr ⟨'+', rfl, rfl⟩
          | minus => exact .inr ⟨'-', rfl, rfl⟩
        have shape : IsPower c sign ds := ⟨letter, signed, digits, by simpa using full⟩
        exact ⟨c :: (sign ++ ds), by simp, .power shape signText⟩
    · cases read
      exact ⟨[], rfl, .none⟩

theorem takePower?_append {power rest : List Char} {e : Int} (h : PowerText e power)
    (ends : Ends rest) : takePower? (power ++ rest) = some (e, rest) := by
  cases h with
  | none => exact takePower?_of_ends ends
  | @power c negative sign ds shape signText =>
    have unsigned : ∀ d ∈ (ds ++ rest).head?, Number.Literal.isSign d = false := by
      intro d first
      rw [List.head?_append_of_ne_nil _ shape.some] at first
      exact Number.Literal.isSign_of_isDigit (shape.digits d (List.mem_of_mem_head? first))
    have digits := Number.Literal.span_isDigit shape.digits fun d first => (ends d first).1
    have some : ds.isEmpty = false := by simpa using shape.some
    rw [List.cons_append, List.append_assoc, takePower?, if_pos shape.letter,
      signText.takeSign_append unsigned]
    simp only [digits, some]
    rfl

theorem stop_of_powerText {power : List Char} {e : Int} (h : PowerText e power) :
    ∀ c ∈ power.head?, isDigit c = false ∧ c ≠ '.' := by
  cases h with
  | none => exact fun c first => absurd first (Option.not_mem_none c)
  | power shape _ => exact Number.Literal.stops_of_letter _ shape.letter

theorem NumberText.takeNumber?_append {cs rest : List Char} {negative : Bool} {x : ℚ}
    (h : NumberText cs negative x) (ends : Ends rest) :
    ∃ d, takeNumber? (cs ++ rest) = some (d, rest) ∧ d.negative = negative ∧ d.value = x := by
  obtain ⟨isWhole, digits, powerText⟩ := h
  have spells := spells_of_parts _ _ isWhole digits (stop_of_powerText powerText)
    fun _ => takePower?_append powerText
  exact ⟨_, spells negative rest ends, rfl, value_literal _ _ _ _⟩

theorem numberText_of_takeNumber? {cs rest : List Char} {d : Number.Decimal}
    (read : takeNumber? cs = some (d, rest)) :
    ∃ text, cs = text ++ rest ∧ NumberText text d.negative d.value := by
  obtain ⟨body, whole, after, fraction, last, power, front, first, second, third, value⟩ :=
    takeNumber?_parts read
  obtain ⟨rfl, isWhole⟩ := takeWhole?_spec first
  obtain ⟨rfl, digits⟩ := takeFraction?_spec second
  obtain ⟨powerChars, rfl, powerText⟩ := takePower?_spec third
  have text := @NumberText.intro d.negative _ _ _ _ isWhole digits powerText
  rw [← value_literal, ← value] at text
  refine ⟨_, ?_, text⟩
  rcases front with ⟨rfl, negative⟩ | ⟨rfl, positive, _⟩
  · rw [negative]
    simp
  · rw [positive]
    simp

/-! ## Strings -/

theorem unquote?_plain {c : Char} (quote : c ≠ '"') (backslash : c ≠ '\\') (glyph : ¬c.toNat < 0x20)
    (rest : List Char) :
    unquote? (c :: rest) = (unquote? rest).map fun (text, rest) => (c :: text, rest) := by
  rw [unquote?.eq_def (c :: rest)]
  split
  · next same => cases same
  · next same => exact (quote (List.cons.inj same).1).elim
  · next same => exact (backslash (List.cons.inj same).1).elim
  · next same => exact (backslash (List.cons.inj same).1).elim
  · next same =>
    cases same
    rw [if_neg glyph]

theorem QuotedText.unquote?_append {cs text : List Char} (h : QuotedText cs text)
    (rest : List Char) : unquote? (cs ++ '"' :: rest) = some (text, rest) := by
  induction h with
  | nil => rfl
  | plain quote backslash glyph _ ih =>
    rw [List.cons_append, unquote?_plain quote backslash glyph, ih]
    rfl
  | @escape e c cs text escape _ ih =>
    -- `u` begins an escape of another shape
    have noUnit : e ≠ 'u' := by
      rintro rfl
      cases escape
    rw [List.cons_append, List.cons_append, unquote?.eq_def]
    simp only
    split
    · next same => cases same
    · next same => exact absurd (List.cons.inj same).1 (by decide)
    · next same => exact (noUnit (List.cons.inj (List.cons.inj same).2).1).elim
    · next same =>
      cases same
      simp only [escape, ih, Option.map_some]
    · next other same =>
      cases same
      exact (other _ _ rfl rfl).elim
  | unit unit high low _ ih =>
    simp only [List.cons_append]
    rw [unquote?, unit]
    simp only [high, low, ih, Option.map_some, Bool.false_eq_true, if_false]
  | pair first high second low _ ih =>
    simp only [List.cons_append]
    rw [unquote?, first]
    simp only [high, second, low, ih, Option.map_some, if_true]

theorem exists_tail_of_unquote? {c : Char} {cs text rest : List Char}
    (read : (unquote? cs).map (fun (text, rest) => (c :: text, rest)) = some (text, rest)) :
    ∃ tail, unquote? cs = some (tail, rest) ∧ text = c :: tail := by
  obtain ⟨⟨tail, after⟩, found, same⟩ := Option.map_eq_some_iff.mp read
  cases same
  exact ⟨tail, found, rfl⟩

theorem quotedText_of_unquote? {cs text rest : List Char}
    (read : unquote? cs = some (text, rest)) :
    ∃ quoted, cs = quoted ++ '"' :: rest ∧ QuotedText quoted text := by
  fun_induction unquote? cs generalizing text rest with
  | case1 | case3 | case4 | case6 | case7 | case8 | case10 | case12 => cases read
  | case2 =>
    cases read
    exact ⟨[], rfl, .nil⟩
  | case5 a b c d n first high e f g h rest m second low ih =>
    obtain ⟨tail, found, rfl⟩ := exists_tail_of_unquote? read
    obtain ⟨quoted, rfl, text⟩ := ih found
    exact ⟨_, rfl, .pair first high second low text⟩
  | case9 a b c d rest n unit high low ih =>
    obtain ⟨tail, found, rfl⟩ := exists_tail_of_unquote? read
    obtain ⟨quoted, rfl, text⟩ := ih found
    exact ⟨_, rfl, .unit unit (Bool.eq_false_iff.mpr high) (Bool.eq_false_iff.mpr low) text⟩
  | case11 e rest _ c escape ih =>
    obtain ⟨tail, found, rfl⟩ := exists_tail_of_unquote? read
    obtain ⟨quoted, rfl, text⟩ := ih found
    exact ⟨_, rfl, .escape escape text⟩
  | case13 c cs quote _ lone glyph ih =>
    obtain ⟨tail, found, rfl⟩ := exists_tail_of_unquote? read
    have backslash : c ≠ '\\' := by
      intro same
      cases cs with
      | nil =>
        rw [unquote?] at found
        cases found
      | cons d cs => exact lone d cs same rfl
    obtain ⟨quoted, rfl, text⟩ := ih found
    exact ⟨_, rfl, .plain quote backslash glyph text⟩

end TagFormula.Json
