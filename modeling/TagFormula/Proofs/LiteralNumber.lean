import TagFormula.Proofs.LiteralText
import TagFormula.Proofs.NameMatch
import TagFormula.Proofs.RoundedDouble

/-!
Literals as a language. The grammar says what a literal is and which number it denotes, without a
word about how a text is taken apart: a sign or none, digits with a point or without one, a power of
ten or none. The reader accepts the literals of this grammar with blanks around them, rounds the
number they denote, and refuses every other text and the numbers beyond the doubles.
-/
namespace TagFormula.Number

namespace Literal

/-! ## The grammar -/

inductive SignText : Bool → List Char → Prop
  | none : SignText false []
  | plus : SignText false ['+']
  | minus : SignText true ['-']

inductive PowerText : Int → List Char → Prop
  | none : PowerText 0 []
  | power {c : Char} {negative : Bool} {sign ds : List Char} (shape : IsPower c sign ds)
      (signText : SignText negative sign) :
    PowerText (if negative then -(ofDigits ds : Int) else ofDigits ds) (c :: (sign ++ ds))

/-- A literal, whether it has a minus sign in front, and the number it denotes. -/
inductive Denotes : List Char → Bool → ℚ → Prop
  | intro {sign text whole fraction power : List Char} {negative : Bool} {e : Int}
      (signText : SignText negative sign) (mantissa : Mantissa text whole fraction)
      (powerText : PowerText e power) :
    Denotes (sign ++ (text ++ power)) negative
      (signed negative ((ofDigits whole + ofDigits fraction / 10 ^ fraction.length) * 10 ^ e))

/-- A text that is a literal with nothing but blanks around it. -/
def Spelled (text : String) (negative : Bool) (x : ℚ) : Prop :=
  ∃ before literal after, text.toList = before ++ literal ++ after ∧
    (∀ c ∈ before, Text.isBlank c = true) ∧ (∀ c ∈ after, Text.isBlank c = true) ∧
    Denotes literal negative x

/-! ## Signs and powers -/

theorem exists_signText (cs : List Char) :
    ∃ sign negative body, cs = sign ++ body ∧ SignText negative sign ∧
      takeSign cs = (negative, body) := by
  unfold takeSign
  split
  · exact ⟨_, _, _, rfl, .minus, rfl⟩
  · exact ⟨_, _, _, rfl, .plus, rfl⟩
  · exact ⟨_, _, _, rfl, .none, rfl⟩

theorem SignText.takeSign_append {negative : Bool} {sign body : List Char}
    (h : SignText negative sign) (unsigned : ∀ c ∈ body.head?, isSign c = false) :
    takeSign (sign ++ body) = (negative, body) := by
  cases h with
  | none => exact takeSign_of_unsigned unsigned
  | plus => rfl
  | minus => rfl

theorem isSign_of_isDigit {c : Char} (digit : isDigit c = true) : isSign c = false :=
  isSign_of_isPart (by simp [isPart, digit])

theorem IsPower.exists_signText {c : Char} {sign ds : List Char} (h : IsPower c sign ds) :
    ∃ negative, SignText negative sign := by
  rcases h.sign with rfl | ⟨s, rfl, isSign⟩
  · exact ⟨_, .none⟩
  · rcases of_decide_eq_true isSign with rfl | rfl
    · exact ⟨_, .plus⟩
    · exact ⟨_, .minus⟩

theorem exponent?_of_powerText {cs : List Char} {e : Int} (h : PowerText e cs) :
    exponent? cs = some e := by
  cases h with
  | none => rfl
  | power shape signText =>
    rw [exponent?, if_pos shape.letter, signText.takeSign_append fun c first =>
      isSign_of_isDigit (shape.digits c (List.mem_of_mem_head? first))]
    simp only
    rw [if_neg]
    simpa using ⟨shape.some, shape.digits⟩

theorem exponent?_eq_some_iff {cs : List Char} {e : Int} :
    exponent? cs = some e ↔ PowerText e cs := by
  refine ⟨fun read => ?_, exponent?_of_powerText⟩
  rcases exponent?_eq_some read with rfl | ⟨c, sign, ds, rfl, shape⟩
  · cases read
    exact .none
  · obtain ⟨negative, signText⟩ := shape.exists_signText
    have power := PowerText.power shape signText
    obtain rfl := Option.some.inj (read.symm.trans (exponent?_of_powerText power))
    exact power

/-! ## Whole literals -/

theorem decimal?_of_unsigned {negative : Bool} {sign body : List Char}
    (signText : SignText negative sign) (unsigned : ∀ c ∈ body.head?, isSign c = false) :
    decimal? (sign ++ body) = (decimal? body).map fun d => { d with negative } := by
  unfold decimal?
  rw [signText.takeSign_append unsigned, takeSign_of_unsigned unsigned]
  simp only
  split
  · rfl
  · rw [Option.map_map]
    rfl

theorem decimal?_literal {sign text whole fraction power : List Char} {negative : Bool} {e : Int}
    (signText : SignText negative sign) (mantissa : Mantissa text whole fraction)
    (powerText : PowerText e power) :
    decimal? (sign ++ (text ++ power)) =
      some ⟨negative, ofDigits (whole ++ fraction), e - fraction.length⟩ := by
  have read := exponent?_eq_some_iff.mpr powerText
  rw [decimal?_of_unsigned signText (mantissa.unsigned power),
    decimal?_mantissa mantissa (stops_of_exponent? read), read]
  rfl

theorem value_literal (negative : Bool) (whole fraction : List Char) (e : Int) :
    Decimal.value ⟨negative, ofDigits (whole ++ fraction), e - fraction.length⟩ =
      signed negative ((ofDigits whole + ofDigits fraction / 10 ^ fraction.length) * 10 ^ e) := by
  rw [Decimal.value, ofDigits_append]
  simp only
  rw [zpow_sub₀ (by norm_num), zpow_natCast]
  push_cast
  congr 1
  field_simp

theorem denotes_iff {cs : List Char} {negative : Bool} {x : ℚ} :
    Denotes cs negative x ↔ ∃ d, decimal? cs = some d ∧ d.negative = negative ∧ d.value = x := by
  constructor
  · rintro ⟨signText, mantissa, powerText⟩
    exact ⟨_, decimal?_literal signText mantissa powerText, rfl, value_literal _ _ _ _⟩
  · rintro ⟨d, read, rfl, rfl⟩
    obtain ⟨text, whole, fraction, power, e, body, mantissa, exponent⟩ := exists_mantissa read
    obtain ⟨sign, negative, rest, rfl, signText, taken⟩ := exists_signText cs
    rw [taken] at body
    obtain rfl : rest = text ++ power := body
    have powerText := exponent?_eq_some_iff.mp exponent
    obtain rfl := Option.some.inj (read.symm.trans (decimal?_literal signText mantissa powerText))
    rw [value_literal]
    exact .intro signText mantissa powerText

theorem spelled_iff {text : String} {negative : Bool} {x : ℚ} :
    Spelled text negative x ↔
      ∃ d, decimal? (Text.trimmed text.toList) = some d ∧ d.negative = negative ∧ d.value = x := by
  rw [← denotes_iff]
  constructor
  · rintro ⟨before, literal, after, around, left, right, denotes⟩
    obtain ⟨d, read, _⟩ := denotes_iff.mp denotes
    rw [around, Text.trimmed_between left (isBlank_of_literal read) right]
    exact denotes
  · intro denotes
    obtain ⟨before, after, around, left, right⟩ := Text.exists_blanks_around text.toList
    exact ⟨before, _, after, around, left, right, denotes⟩

theorem Spelled.unique {text : String} {a b : Bool} {x y : ℚ} (h : Spelled text a x)
    (h' : Spelled text b y) : a = b ∧ x = y := by
  obtain ⟨d, read, rfl, rfl⟩ := spelled_iff.mp h
  obtain ⟨d', read', rfl, rfl⟩ := spelled_iff.mp h'
  obtain rfl := Option.some.inj (read.symm.trans read')
  exact ⟨rfl, rfl⟩

end Literal

open Literal (Spelled spelled_iff)

/-! ## Reading -/

theorem read?_eq_some_iff {text : String} {v : Float} :
    read? text = some v ↔ ∃ negative x, Spelled text negative x ∧
      Binary64.RoundsTo negative x v := by
  rw [read?, Option.bind_eq_some_iff]
  constructor
  · rintro ⟨d, read, value⟩
    exact ⟨d.negative, d.value, spelled_iff.mpr ⟨d, read, rfl, rfl⟩,
      (d.toFloat?_eq_some_iff v).mp value⟩
  · rintro ⟨_, _, spelled, rounds⟩
    obtain ⟨d, read, rfl, rfl⟩ := spelled_iff.mp spelled
    exact ⟨d, read, (d.toFloat?_eq_some_iff v).mpr rounds⟩

theorem read?_eq_none_iff {text : String} :
    read? text = none ↔ ∀ negative x, Spelled text negative x → Binary64.overflow ≤ |x| := by
  rw [read?, Option.bind_eq_none_iff]
  constructor
  · intro none negative x spelled
    obtain ⟨d, read, rfl, rfl⟩ := spelled_iff.mp spelled
    exact d.toFloat?_eq_none_iff.mp (none d read)
  · intro large d read
    exact d.toFloat?_eq_none_iff.mpr (large _ _ (spelled_iff.mpr ⟨d, read, rfl, rfl⟩))

/-- A text is read as a number exactly if it is a literal with nothing but blanks around it, and as
the double that the number it denotes is rounded to; of the literals only those are refused that
denote a number which is rounded to infinity. No text denotes two numbers. Reading recurses on the
characters that are left, so it ends for every text and never looks beyond one. -/
theorem read?_exactly_literals (text : String) :
    (∀ v, read? text = some v ↔ ∃ negative x, Spelled text negative x ∧
      Binary64.RoundsTo negative x v) ∧
    (read? text = none ↔ ∀ negative x, Spelled text negative x → 2 ^ 1024 - 2 ^ 970 ≤ |x|) ∧
    (∀ a b x y, Spelled text a x → Spelled text b y → a = b ∧ x = y) :=
  ⟨fun _ => read?_eq_some_iff, read?_eq_none_iff, fun _ _ _ _ first second => first.unique second⟩

end TagFormula.Number
