import TagFormula.Proofs.LiteralText
import TagFormula.Token

/-!
What is displayed of a number. Tags show every place of a number, results only of numbers from a
millionth on and below `10 ^ 15`; the others have a power of ten. Both texts are literals of the
same double, so that they tell finite numbers apart; what is shown of the others is no literal.
-/
namespace TagFormula.Number

open Binary64

/-! ## Where powers of ten begin -/

/-- Every number with the power of ten of its first digit. -/
def Style.exponential : Style := ⟨.up, fun _ => false, false, false⟩

theorem millionth_eq : (1e-6 : Float) = ofMagnitude false 0x3eb0c6f7a0b5ed8d := rfl

theorem quadrillion_eq : (1e15 : Float) = ofMagnitude false 0x430c6bf526340000 := rfl

theorem isPositional_result_iff {m : Nat} (positive : 0 < m) (finite : m < infinity) :
    Style.result.isPositional (leadingPower .up m) = true ↔
      exact 1e-6 ≤ worth m ∧ worth m < exact 1e15 := by
  have low : leadingPower .up m < -6 ↔ m < 0x3eb0c6f7a0b5ed8d :=
    leadingPower_lt_iff positive finite (by decide +kernel) (by decide +kernel)
  have high : leadingPower .up m < 15 ↔ m < 0x430c6bf526340000 :=
    leadingPower_lt_iff positive finite (by decide +kernel) (by decide +kernel)
  have positional : Style.result.isPositional (leadingPower .up m) = true ↔
      ¬leadingPower .up m < -6 ∧ leadingPower .up m < 15 := by
    rw [not_lt]
    exact decide_eq_true_iff
  rw [positional, low, high, not_lt, millionth_eq, quadrillion_eq,
    exact_ofMagnitude false (by decide), exact_ofMagnitude false (by decide)]
  exact and_congr worth_strictMono.le_iff_le.symm worth_strictMono.lt_iff_lt.symm

/-! ## What is shown -/

theorem writeMagnitude_of_pos (s : Style) {m : Nat} (positive : 0 < m) :
    s.writeMagnitude m =
      if s.isPositional (leadingPower s.tie m) then
        Style.positional s.marksWhole (Nat.toDigits 10 (shortest s.tie m).digits)
          (shortest s.tie m).place
      else
        Style.scientific s.marksPower (Nat.toDigits 10 (shortest s.tie m).digits)
          (leadingPower s.tie m) := by
  rw [Style.writeMagnitude, if_neg positive.ne']
  rfl

theorem display_cases {v : Float} (finite : v.isFinite = true) (nonzero : (v == 0) = false) :
    (exact 1e-6 ≤ |exact v| ∧ |exact v| < exact 1e15 → display v = Style.plain.write v) ∧
      (¬(exact 1e-6 ≤ |exact v| ∧ |exact v| < exact 1e15) →
        display v = Style.exponential.write v) := by
  have positive := magnitude_pos nonzero
  have size : |exact v| = worth (magnitude v) := by
    rw [exact_eq finite, abs_signed, abs_of_nonneg (worth_nonneg _)]
  have same (s : Style) (agrees : Style.result.writeMagnitude (magnitude v) =
      s.writeMagnitude (magnitude v)) : Style.result.write v = s.write v := by
    rw [Style.write, Style.write, agrees]
  rw [size, ← isPositional_result_iff positive (magnitude_lt_infinity finite),
    display_of_ne_zero finite nonzero]
  constructor
  · intro positional
    refine same _ ?_
    rw [writeMagnitude_of_pos _ positive, writeMagnitude_of_pos _ positive]
    exact if_pos positional
  · intro exponential
    refine same _ ?_
    rw [writeMagnitude_of_pos _ positive, writeMagnitude_of_pos _ positive]
    exact if_neg exponential

theorem read?_label {v : Float} (finite : v.isFinite = true) :
    read? (Token.ofFloat v).label = some v := by
  show read? (Style.plain.write (Amount.ofFloat v).val) = some v
  rw [Amount.val_ofFloat_of_isFinite finite]
  exact read?_write .plain finite

theorem read?_display {v : Float} (finite : v.isFinite = true) :
    read? (display v) = some (if v == 0 then 0 else v) := by
  cases zero : v == 0 with
  | true =>
    have text : display v = "0" := by
      rw [display, isNaN_of_isFinite finite, isInf_of_isFinite finite, zero]
      rfl
    rw [text]
    rfl
  | false =>
    rw [display_of_ne_zero finite zero]
    exact read?_write .result finite

theorem read?_display_of_infinite {v : Float} (infinite : v.isFinite = false) :
    read? (display v) = none := by
  have undefined : read? "indéfini" = none := by decide +kernel
  have above : read? "∞" = none := by decide +kernel
  have below : read? "-∞" = none := by decide +kernel
  unfold display
  split
  · exact undefined
  · next number =>
    rw [if_pos ((isNaN_or_isInf infinite).resolve_left number)]
    split
    · exact below
    · exact above

theorem label_injective {v w : Float} (v_finite : v.isFinite = true) (w_finite : w.isFinite = true)
    (same : (Token.ofFloat v).label = (Token.ofFloat w).label) : v = w := by
  have read := read?_label v_finite
  rw [same, read?_label w_finite] at read
  exact (Option.some.inj read).symm

theorem display_injective {v w : Float} (v_finite : v.isFinite = true)
    (w_finite : w.isFinite = true) (v_nonzero : (v == 0) = false) (w_nonzero : (w == 0) = false)
    (same : display v = display w) : v = w := by
  have read := read?_display v_finite
  rw [same, read?_display w_finite, v_nonzero, w_nonzero] at read
  exact (Option.some.inj read).symm

/-- Of every finite number the label and the displayed result are read back as the very same double,
but for the sign of a zero that a result has lost; this is so on both sides of the two doubles where
results get a power of ten. What is displayed of the other doubles is refused. So finite numbers
that differ have labels that differ, and if none is a zero, displayed results that differ. -/
theorem shown_numbers_read_back :
    (∀ v : Float, v.isFinite = true → read? (Token.ofFloat v).label = some v ∧
      read? (display v) = some (if v == 0 then 0 else v)) ∧
    (∀ v : Float, v.isFinite = true → (v == 0) = false →
      (exact 1e-6 ≤ |exact v| ∧ |exact v| < exact 1e15 → display v = Style.plain.write v) ∧
      (¬(exact 1e-6 ≤ |exact v| ∧ |exact v| < exact 1e15) →
        display v = Style.exponential.write v)) ∧
    (∀ v : Float, v.isFinite = false → read? (display v) = none) ∧
    ∀ v w : Float, v.isFinite = true → w.isFinite = true → v ≠ w →
      (Token.ofFloat v).label ≠ (Token.ofFloat w).label ∧
      ((v == 0) = false → (w == 0) = false → display v ≠ display w) := by
  refine ⟨fun v finite => ⟨read?_label finite, read?_display finite⟩,
    fun v finite nonzero => display_cases finite nonzero,
    fun v infinite => read?_display_of_infinite infinite, fun v w v_finite w_finite differ => ?_⟩
  constructor
  · exact fun same => differ (label_injective v_finite w_finite same)
  · intro v_nonzero w_nonzero same
    exact differ (display_injective v_finite w_finite v_nonzero w_nonzero same)

example : display 1e-6 = "0.000001" := by decide +kernel

example : display 1e15 = "1e15" := by decide +kernel

end TagFormula.Number
