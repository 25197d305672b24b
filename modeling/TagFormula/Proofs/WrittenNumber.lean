import TagFormula.Json.Writer
import TagFormula.Json.Reader
import TagFormula.Proofs.RoundedDouble
import TagFormula.Proofs.ShortestDecimal

/-!
A written number is read back. Every style writes digits, perhaps a point with digits after it,
perhaps a power of ten; JSON reads all of it and no more, and the decimal it finds stands for the
very number whose digits were written.
-/
namespace TagFormula

open Number (Style Ratio)
open Number.Literal (isDigit ofDigits takeSign)

namespace Number.Literal

theorem isDigit_of_mem_toDigits {n : Nat} {c : Char} (h : c ∈ Nat.toDigits 10 n) :
    isDigit c = true := by
  have digit := Nat.isDigit_of_mem_toDigits (by decide) (by decide) h
  simpa [Char.isDigit, isDigit, Char.le_def] using digit

theorem ofDigits_toDigits (n : Nat) : ofDigits (Nat.toDigits 10 n) = n :=
  Nat.ofDigitChars_ten_toDigits

theorem ofDigits_append (a b : List Char) :
    ofDigits (a ++ b) = ofDigits a * 10 ^ b.length + ofDigits b := by
  unfold ofDigits
  rw [Nat.ofDigitChars_append, Nat.ofDigitChars_eq_ofDigitChars_zero, Nat.mul_comm]

theorem ofDigits_zeros (n : Nat) : ofDigits (List.replicate n '0') = 0 := by
  rw [ofDigits, Nat.ofDigitChars_replicate_zero, Nat.mul_zero]

theorem head?_toDigits {n : Nat} (positive : 0 < n) : (Nat.toDigits 10 n).head? ≠ some '0' := by
  induction n using Nat.strongRecOn with
  | ind n ih =>
    by_cases small : n < 10
    · rw [Nat.toDigits_of_lt_base small]
      have digits : ∀ k < 10, 0 < k → [Nat.digitChar k].head? ≠ some '0' := by decide
      exact digits n small positive
    · rw [Nat.toDigits_of_base_le (by decide) (by omega), List.head?_append]
      have before := ih (n / 10) (by omega) (by omega)
      cases first : (Nat.toDigits 10 (n / 10)).head? with
      | none => exact (Nat.toDigits_ne_nil (List.head?_eq_none_iff.mp first)).elim
      | some c =>
        rw [first] at before
        exact before

theorem span_isDigit {ds rest : List Char} (digits : ∀ c ∈ ds, isDigit c = true)
    (stop : ∀ c ∈ rest.head?, isDigit c = false) :
    (ds ++ rest).span isDigit = (ds, rest) := by
  have left : rest.takeWhile isDigit = [] ∧ rest.dropWhile isDigit = rest := by
    cases rest with
    | nil => exact ⟨rfl, rfl⟩
    | cons c rest =>
      have other := stop c rfl
      simp [other]
  rw [List.span_eq_takeWhile_dropWhile, List.takeWhile_append_of_pos digits,
    List.dropWhile_append_of_pos digits, left.1, left.2, List.append_nil]

end Number.Literal

namespace Json

open Number.Literal

/-! ## Reading the parts of a number -/

/-- No number goes on with this. -/
def Ends (rest : List Char) : Prop :=
  ∀ c ∈ rest.head?, isDigit c = false ∧ c ≠ '.' ∧ c ≠ 'e' ∧ c ≠ 'E'

structure IsWhole (ds : List Char) : Prop where
  digits : ∀ c ∈ ds, isDigit c = true
  nonempty : ds ≠ []
  leading : ds.head? = some '0' → ds = ['0']

def pointed : List Char → List Char
  | [] => []
  | c :: cs => '.' :: c :: cs

theorem takeWhole?_append {ds rest : List Char} (whole : IsWhole ds)
    (stop : ∀ c ∈ rest.head?, isDigit c = false) : takeWhole? (ds ++ rest) = some (ds, rest) := by
  obtain ⟨digits, nonempty, leading⟩ := whole
  unfold takeWhole?
  split
  · next after first =>
    cases ds with
    | nil => exact (nonempty rfl).elim
    | cons c cs =>
      obtain ⟨rfl, same⟩ := List.cons.inj first
      obtain ⟨_, rfl⟩ := List.cons.inj (leading rfl)
      rw [← same]
      rfl
  · rw [span_isDigit digits stop]
    simp [nonempty]

theorem takeFraction?_append {ds rest : List Char} (digits : ∀ c ∈ ds, isDigit c = true)
    (stop : ∀ c ∈ rest.head?, isDigit c = false ∧ c ≠ '.') :
    takeFraction? (pointed ds ++ rest) = some (ds, rest) := by
  cases ds with
  | nil =>
    cases rest with
    | nil => rfl
    | cons c rest =>
      have other := (stop c rfl).2
      unfold takeFraction?
      split
      · next first =>
        cases first
        exact (other rfl).elim
      · rfl
  | cons d ds =>
    have digits := span_isDigit digits fun c first => (stop c first).1
    rw [pointed, List.cons_append, takeFraction?, digits]
    rfl

def powerText (marked : Bool) (power : Int) : List Char :=
  'e' :: ((if power < 0 then ['-'] else if marked then ['+'] else []) ++
    Nat.toDigits 10 power.natAbs)

theorem takePower?_powerText (marked : Bool) (power : Int) {rest : List Char} (ends : Ends rest) :
    takePower? (powerText marked power ++ rest) = some (power, rest) := by
  have digits : (Nat.toDigits 10 power.natAbs ++ rest).span isDigit =
      (Nat.toDigits 10 power.natAbs, rest) :=
    span_isDigit (fun _ => isDigit_of_mem_toDigits) fun c first => (ends c first).1
  have signed : takeSign ((if power < 0 then ['-'] else if marked then ['+'] else []) ++
      Nat.toDigits 10 power.natAbs ++ rest) =
        (decide (power < 0), Nat.toDigits 10 power.natAbs ++ rest) := by
    by_cases negative : power < 0
    · simp [negative, takeSign]
    · cases marked with
      | true => simp [negative, takeSign]
      | false =>
        simp only [negative, if_false, Bool.false_eq_true, List.nil_append, decide_false]
        cases shape : Nat.toDigits 10 power.natAbs with
        | nil => exact (Nat.toDigits_ne_nil shape).elim
        | cons d ds =>
          have digit : isDigit d = true :=
            isDigit_of_mem_toDigits (shape ▸ List.mem_cons_self)
          rw [List.cons_append]
          unfold takeSign
          split
          · next first =>
            cases first
            cases digit
          · next first =>
            cases first
            cases digit
          · rfl
  rw [powerText, List.cons_append, takePower?, if_pos (.inl rfl), signed]
  simp only [digits, ofDigits_toDigits]
  rw [if_neg (by simp [Nat.toDigits_ne_nil])]
  by_cases negative : power < 0
  · rw [if_pos (decide_eq_true negative), Int.ofNat_natAbs_of_nonpos (Int.le_of_lt negative),
      Int.neg_neg]
  · rw [if_neg (by simpa using negative), Int.natAbs_of_nonneg (Int.not_lt.mp negative)]

theorem takePower?_of_ends {rest : List Char} (ends : Ends rest) :
    takePower? rest = some (0, rest) := by
  cases rest with
  | nil => rfl
  | cons c rest =>
    obtain ⟨_, _, lower, upper⟩ := ends c rfl
    rw [takePower?, if_neg (by simp [lower, upper])]

/-- JSON reads this text as a decimal, with a minus sign or without, and goes no further. -/
def Spells (text : List Char) (digits : Nat) (exponent : Int) : Prop :=
  ∀ (negative : Bool) (rest : List Char), Ends rest →
    takeNumber? ((if negative then '-' :: text else text) ++ rest) =
      some (⟨negative, digits, exponent⟩, rest)

theorem ends_nil : Ends [] := fun _ first => absurd first (Option.not_mem_none _)

theorem forall_mem_head?_append {p : Char → Prop} {a b : List Char} (left : ∀ c ∈ a.head?, p c)
    (right : ∀ c ∈ b.head?, p c) : ∀ c ∈ (a ++ b).head?, p c := by
  cases a with
  | nil => exact right
  | cons d a => exact left

theorem spells_of_parts {whole fraction : List Char} (power : List Char) (exponent : Int)
    (isWhole : IsWhole whole) (digits : ∀ c ∈ fraction, isDigit c = true)
    (stop : ∀ c ∈ power.head?, isDigit c = false ∧ c ≠ '.')
    (reads : ∀ rest, Ends rest → takePower? (power ++ rest) = some (exponent, rest)) :
    Spells (whole ++ pointed fraction ++ power) (ofDigits (whole ++ fraction))
      (exponent - fraction.length) := by
  intro negative rest ends
  have after_fraction : ∀ c ∈ (power ++ rest).head?, isDigit c = false ∧ c ≠ '.' :=
    forall_mem_head?_append stop fun c first => ⟨(ends c first).1, (ends c first).2.1⟩
  have after_whole : ∀ c ∈ (pointed fraction ++ (power ++ rest)).head?, isDigit c = false := by
    refine forall_mem_head?_append ?_ fun c first => (after_fraction c first).1
    cases fraction with
    | nil => exact fun c first => absurd first (Option.not_mem_none c)
    | cons d ds =>
      intro c first
      cases first
      rfl
  have first := takeWhole?_append isWhole after_whole
  have second := takeFraction?_append digits after_fraction
  have third := reads rest ends
  cases negative with
  | true =>
    simp only [if_true, List.cons_append, List.append_assoc, takeNumber?, first, second, third,
      Option.bind_eq_bind, Option.bind_some]
  | false =>
    have plain : ∀ cs, whole ++ (pointed fraction ++ (power ++ rest)) ≠ '-' :: cs := by
      intro cs same
      cases whole with
      | nil => exact isWhole.nonempty rfl
      | cons c ds =>
        have digit := isWhole.digits c List.mem_cons_self
        obtain ⟨rfl, _⟩ := List.cons.inj same
        cases digit
    simp only [Bool.false_eq_true, if_false, List.append_assoc]
    unfold takeNumber?
    split
    · next sign cs same =>
      split at same
      · next minus => exact (plain _ minus).elim
      · cases same
        simp only [first, second, third, Option.bind_eq_bind, Option.bind_some]

theorem spells_without_power {whole : List Char} (isWhole : IsWhole whole) (fraction : List Char)
    (digits : ∀ c ∈ fraction, isDigit c = true) :
    Spells (whole ++ pointed fraction) (ofDigits (whole ++ fraction)) (-fraction.length) := by
  have spelled := spells_of_parts [] 0 isWhole digits
    (fun c first => absurd first (Option.not_mem_none c)) fun rest ends => takePower?_of_ends ends
  rw [List.append_nil, Int.zero_sub] at spelled
  exact spelled

/-! ## Reading what is written -/

theorem isWhole_zero : IsWhole ['0'] :=
  ⟨List.forall_mem_singleton.mpr rfl, List.cons_ne_nil _ _, fun _ => rfl⟩

theorem isWhole_of_head? {ds : List Char} (digits : ∀ c ∈ ds, isDigit c = true) (nonempty : ds ≠ [])
    (leading : ds.head? ≠ some '0') : IsWhole ds :=
  ⟨digits, nonempty, fun zero => (leading zero).elim⟩

theorem isDigit_of_mem_zeros {n : Nat} {c : Char} (h : c ∈ List.replicate n '0') :
    isDigit c = true := by
  rw [List.eq_of_mem_replicate h]
  rfl

theorem value_shift (n k : Nat) (place : Int) :
    (Ratio.scaled 10 (n * 10 ^ k) (place - k)).value = (Ratio.scaled 10 n place).value := by
  rw [Ratio.value_scaled, Ratio.value_scaled, zpow_sub₀ (by norm_num), zpow_natCast]
  push_cast
  field_simp

theorem pointed_of_length_pos {ds : List Char} (some : 0 < ds.length) : pointed ds = '.' :: ds := by
  cases ds with
  | nil => exact absurd some (Nat.lt_irrefl 0)
  | cons c cs => rfl

structure DigitsOf (n : Nat) (ds : List Char) : Prop where
  digits : ∀ c ∈ ds, isDigit c = true
  nonempty : ds ≠ []
  leading : ds.head? ≠ some '0'
  value : ofDigits ds = n

theorem digitsOf_toDigits {n : Nat} (positive : 0 < n) : DigitsOf n (Nat.toDigits 10 n) where
  digits _ := isDigit_of_mem_toDigits
  nonempty := Nat.toDigits_ne_nil
  leading := head?_toDigits positive
  value := ofDigits_toDigits n

namespace DigitsOf

variable {n : Nat} {ds : List Char}

theorem spells_whole (h : DigitsOf n ds) (marked : Bool) (k : Nat) :
    ∃ digits exponent,
      Spells (ds ++ List.replicate k '0' ++ if marked then ['.', '0'] else []) digits exponent ∧
        (Ratio.scaled 10 digits exponent).value = (Ratio.scaled 10 n k).value := by
  have whole : IsWhole (ds ++ List.replicate k '0') := by
    refine isWhole_of_head? ?_ (by simp [h.nonempty]) ?_
    · intro c member
      rcases List.mem_append.mp member with inside | zero
      · exact h.digits c inside
      · exact isDigit_of_mem_zeros zero
    · rw [List.head?_append_of_ne_nil _ h.nonempty]
      exact h.leading
  have padded : ofDigits (ds ++ List.replicate k '0') = n * 10 ^ k := by
    rw [ofDigits_append, ofDigits_zeros, h.value, List.length_replicate, Nat.add_zero]
  cases marked with
  | true =>
    have shifted := value_shift n (k + 1) k
    refine ⟨_, _, spells_without_power whole ['0'] isWhole_zero.digits, ?_⟩
    rw [ofDigits_append, padded, ← shifted]
    congr 2
    · exact Nat.mul_assoc _ _ _
    · rw [List.length_singleton]
      omega
  | false =>
    have shifted := value_shift n k k
    refine ⟨_, _, spells_without_power whole [] (List.forall_mem_nil _), ?_⟩
    rw [List.append_nil, padded, ← shifted]
    congr 2
    rw [List.length_nil]
    omega

theorem spells_split (h : DigitsOf n ds) {after : Nat} (counted : 0 < after)
    (inside : after < ds.length) :
    Spells (ds.take (ds.length - after) ++ '.' :: ds.drop (ds.length - after)) n (-after) := by
  have whole : IsWhole (ds.take (ds.length - after)) := by
    refine isWhole_of_head? (fun c member => h.digits c (List.mem_of_mem_take member)) ?_ ?_
    · rw [← List.length_pos_iff, List.length_take]
      omega
    · rw [List.head?_take, if_neg (by omega)]
      exact h.leading
  have length : (ds.drop (ds.length - after)).length = after := by
    rw [List.length_drop]
    omega
  have spells := spells_without_power whole (ds.drop (ds.length - after))
    fun c member => h.digits c (List.mem_of_mem_drop member)
  rw [List.take_append_drop, h.value, pointed_of_length_pos (by omega), length] at spells
  exact spells

theorem spells_below (h : DigitsOf n ds) {after : Nat} (counted : 0 < after)
    (outside : ¬after < ds.length) :
    Spells ('0' :: '.' :: (List.replicate (after - ds.length) '0' ++ ds)) n (-after) := by
  have digits : ∀ c ∈ List.replicate (after - ds.length) '0' ++ ds, isDigit c = true := by
    intro c member
    rcases List.mem_append.mp member with zero | inside
    · exact isDigit_of_mem_zeros zero
    · exact h.digits c inside
  have length : (List.replicate (after - ds.length) '0' ++ ds).length = after := by
    rw [List.length_append, List.length_replicate]
    omega
  have value : ofDigits (['0'] ++ (List.replicate (after - ds.length) '0' ++ ds)) = n := by
    have zero : ofDigits ['0'] = 0 := rfl
    rw [ofDigits_append, ofDigits_append, ofDigits_zeros, h.value, zero]
    simp
  have spells := spells_without_power isWhole_zero _ digits
  rw [value, pointed_of_length_pos (by omega), length] at spells
  exact spells

theorem spells_positional (h : DigitsOf n ds) (marked : Bool) (place : Int) :
    ∃ digits exponent, Spells (Style.positional marked ds place) digits exponent ∧
      (Ratio.scaled 10 digits exponent).value = (Ratio.scaled 10 n place).value := by
  unfold Style.positional
  split
  · next up =>
    obtain ⟨k, rfl⟩ := Int.eq_ofNat_of_zero_le up
    rw [Int.toNat_natCast]
    exact h.spells_whole marked k
  · next down =>
    have back : -((-place).toNat : Int) = place := by omega
    simp only
    split
    · next inside =>
      have spells := h.spells_split (by omega) inside
      rw [back] at spells
      exact ⟨n, place, spells, rfl⟩
    · next outside =>
      have spells := h.spells_below (by omega) outside
      rw [back] at spells
      exact ⟨n, place, spells, rfl⟩

theorem spells_scientific (h : DigitsOf n ds) (marked : Bool) (place : Int) :
    Spells (Style.scientific marked ds (place + ds.length - 1)) n place := by
  cases ds with
  | nil => exact (h.nonempty rfl).elim
  | cons d ds =>
    have whole : IsWhole [d] :=
      isWhole_of_head? (List.forall_mem_singleton.mpr (h.digits d List.mem_cons_self))
        (List.cons_ne_nil _ _) h.leading
    have spells := spells_of_parts (powerText marked (place + (d :: ds).length - 1)) _ whole
      (fun c member => h.digits c (List.mem_cons_of_mem d member))
      (fun c first => by cases first; decide)
      fun rest ends => takePower?_powerText marked _ ends
    have exponent : place + (d :: ds).length - 1 - ds.length = place := by
      rw [List.length_cons]
      omega
    have value : ofDigits ([d] ++ ds) = n := h.value
    rw [exponent, value, List.singleton_append] at spells
    cases ds with
    | nil => exact spells
    | cons c cs => exact spells

end DigitsOf

/-- Every style writes a finite magnitude so that JSON reads that magnitude. -/
theorem spells_writeMagnitude (s : Style) {m : Nat} (finite : m < Number.Binary64.infinity) :
    ∃ digits exponent, Spells (s.writeMagnitude m) digits exponent ∧
      Number.Binary64.nearest? (Ratio.scaled 10 digits exponent) = some m := by
  unfold Style.writeMagnitude
  by_cases zero : m = 0
  · rw [if_pos zero, zero]
    have nothing (e : Int) : Number.Binary64.nearest? (Ratio.scaled 10 0 e) = some 0 := by
      simp [Number.Binary64.nearest?, Ratio.scaled]
    by_cases marked : s.marksWhole = true
    · rw [if_pos marked]
      exact ⟨_, _, spells_without_power isWhole_zero _ isWhole_zero.digits, nothing _⟩
    · rw [if_neg marked]
      exact ⟨_, _, spells_without_power isWhole_zero [] (List.forall_mem_nil _),
        nothing _⟩
  · rw [if_neg zero]
    have reads := Number.nearest?_shortest s.tie finite
    have positive := Number.digits_shortest_pos s.tie (Nat.pos_of_ne_zero zero) finite
    generalize Number.shortest s.tie m = d at reads positive
    simp only
    split
    · obtain ⟨digits, exponent, spells, value⟩ :=
        (digitsOf_toDigits positive).spells_positional s.marksWhole d.place
      refine ⟨digits, exponent, spells, ?_⟩
      rw [← reads]
      exact Number.Binary64.nearest?_congr (Ratio.den_scaled (by decide) _ _)
        (Ratio.den_scaled (by decide) _ _) value
    · exact ⟨_, _, (digitsOf_toDigits positive).spells_scientific s.marksPower d.place, reads⟩

theorem takeNumber?_write (s : Style) {v : Float} (finite : v.isFinite = true) {rest : List Char}
    (ends : Ends rest) :
    ∃ d, takeNumber? ((s.write v).toList ++ rest) = some (d, rest) ∧ d.toFloat? = some v := by
  obtain ⟨digits, exponent, spells, reads⟩ :=
    spells_writeMagnitude s (Number.Binary64.magnitude_lt_infinity finite)
  refine ⟨⟨Number.Binary64.isNegative v, digits, exponent⟩, ?_, ?_⟩
  · have read := spells (Number.Binary64.isNegative v) rest ends
    rw [Style.write, Number.Binary64.isNaN_of_isFinite finite, finite]
    simpa only [Bool.false_eq_true, if_false, if_true, String.toList_ofList] using read
  · have read : Number.Decimal.magnitude? ⟨Number.Binary64.isNegative v, digits, exponent⟩ =
        some (Number.Binary64.magnitude v) :=
      (Number.Decimal.magnitude?_eq _).trans reads
    rw [Number.Decimal.toFloat?, read, Option.map_some, Number.Binary64.ofMagnitude_magnitude]

end Json

end TagFormula
