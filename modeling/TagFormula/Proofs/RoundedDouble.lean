import TagFormula.Number.Decimal
import TagFormula.Proofs.FloatBits
import TagFormula.Proofs.Nearest

/-!
Rounding a number to a double. A double stands for the number that its sign, mantissa and exponent
make; a number is rounded to the finite double that is nearest to it, the even one of two, with its
own sign even for zero, as long as it is not too large. This is what reading a decimal comes to.
-/
namespace TagFormula.Number

def signed (negative : Bool) (x : ℚ) : ℚ := if negative then -x else x

@[simp] theorem abs_signed (negative : Bool) (x : ℚ) : |signed negative x| = |x| := by
  cases negative with
  | true => exact abs_neg x
  | false => rfl

@[simp] theorem signed_zero (negative : Bool) : signed negative 0 = 0 := by
  cases negative with
  | true => exact neg_zero
  | false => rfl

theorem abs_signed_sub (negative : Bool) (x y : ℚ) :
    |signed negative x - signed negative y| = |x - y| := by
  cases negative with
  | true =>
    show |-x - -y| = |x - y|
    rw [neg_sub_neg, abs_sub_comm]
  | false => rfl

theorem abs_signed_sub_of_ne {a b : Bool} (different : a ≠ b) {x y : ℚ} (x_nonneg : 0 ≤ x)
    (y_nonneg : 0 ≤ y) : |signed a x - signed b y| = x + y := by
  cases a with
  | true =>
    obtain rfl : b = false := by simpa using different
    show |-x - y| = x + y
    rw [abs_of_nonpos (by linarith)]
    ring
  | false =>
    obtain rfl : b = true := by simpa using different
    show |x - -y| = x + y
    rw [abs_of_nonneg (by linarith)]
    ring

namespace Binary64

open Float.Model.UnpackedFloat

/-! ## The number of a double -/

def exact (v : Float) : ℚ :=
  match unpack .binary64 v.toBits.toBitVec with
  | .finite sign mantissa exponent _ => sign.apply mantissa * 2 ^ exponent
  | _ => 0

theorem cast_apply (negative : Bool) (m : Nat) (e : Int) :
    ((if negative then Sign.negative else .positive : Sign).apply (m : Int) : ℚ) * 2 ^ e =
      signed negative (m * 2 ^ e) := by
  cases negative with
  | true =>
    show ((-(m : Int) : Int) : ℚ) * 2 ^ e = -(m * 2 ^ e)
    push_cast
    exact neg_mul _ _
  | false => exact congrArg (· * (2 : ℚ) ^ e) (Int.cast_natCast m)

theorem exact_eq {v : Float} (finite : v.isFinite = true) :
    exact v = signed (isNegative v) (worth (magnitude v)) := by
  have field := exponent_ne_of_isFinite finite
  have few : (@unpackMantissa .binary64 v.toBits.toBitVec).toNat < 2 ^ 52 :=
    (@unpackMantissa .binary64 v.toBits.toBitVec).isLt
  rw [worth, value_ratio, magnitude_eq_fields v]
  unfold exact unpack
  simp only
  rw [if_neg field, ofBitVec_unpackSign]
  by_cases low : @unpackExponent .binary64 v.toBits.toBitVec = 0#11
  · have none : (@unpackExponent .binary64 v.toBits.toBitVec).toNat = 0 :=
      congrArg BitVec.toNat low
    rw [none, Nat.zero_mul, Nat.zero_add, dyadic_subnormal few, if_pos low]
    split
    · next shape =>
      split at shape
      · cases shape
      · injection shape with sign mantissa place
        rw [← sign, ← mantissa, ← place]
        exact cast_apply _ _ _
    · next shape =>
      split at shape
      · next zero =>
        have nothing : (@unpackMantissa .binary64 v.toBits.toBitVec).toNat = 0 :=
          congrArg BitVec.toNat zero
        rw [nothing, Nat.cast_zero, zero_mul, signed_zero]
      · exact (shape _ _ _ _ rfl).elim
  · have some : (@unpackExponent .binary64 v.toBits.toBitVec).toNat ≠ 0 := fun zero =>
      low (BitVec.eq_of_toNat_eq zero)
    obtain ⟨k, next⟩ := Nat.exists_eq_succ_of_ne_zero some
    have whole : (1#1 ++ @unpackMantissa .binary64 v.toBits.toBitVec).toNat =
        2 ^ 52 + (@unpackMantissa .binary64 v.toBits.toBitVec).toNat := by
      rw [BitVec.toNat_append]
      exact (Nat.shiftLeft_add_eq_or_of_lt few 1).symm
    have place : ((k + 1 : Nat) : Int) - (1023 + 52) = (k : Int) - 1074 := by omega
    rw [if_neg low, next, dyadic_normal k few]
    refine (cast_apply _ _ _).trans ?_
    rw [whole]
    exact congrArg (fun p => signed _ (_ * (2 : ℚ) ^ p)) place

theorem exact_ofMagnitude (negative : Bool) {m : Nat} (finite : m < infinity) :
    exact (ofMagnitude negative m) = signed negative (worth m) := by
  rw [exact_eq (isFinite_ofMagnitude negative finite), isNegative_ofMagnitude negative finite,
    magnitude_ofMagnitude negative finite]

/-! ## Rounding -/

/-- The double that the number `x` is rounded to. The sign decides between the two zeros. -/
structure RoundsTo (negative : Bool) (x : ℚ) (v : Float) : Prop where
  finite : v.isFinite = true
  sign : isNegative v = negative
  /-- No finite double is nearer. -/
  near : ∀ w : Float, w.isFinite = true → |x - exact v| ≤ |x - exact w|
  /-- Of two that are as near, it is the one whose last bit is zero. -/
  even : ∀ w : Float, w.isFinite = true → exact w ≠ exact v → |x - exact v| = |x - exact w| →
    v.toBits.toNat % 2 = 0
  /-- The number is not so large that it is rounded to infinity. -/
  bounded : |x| < overflow

theorem RoundsTo.isNearest {negative : Bool} {y : ℚ} (nonneg : 0 ≤ y) {v : Float}
    (h : RoundsTo negative (signed negative y) v) : IsNearest y (magnitude v) := by
  have here := exact_eq h.finite
  rw [h.sign] at here
  have parity : v.toBits.toNat % 2 = magnitude v % 2 := by
    unfold magnitude
    omega
  have small : y < overflow := by
    have bounded := h.bounded
    rwa [abs_signed, abs_of_nonneg nonneg] at bounded
  obtain ⟨k, nearest⟩ := exists_isNearest nonneg
  have finite := nearest.lt_infinity_iff.mpr small
  have there := exact_ofMagnitude negative finite
  have near := h.near _ (isFinite_ofMagnitude negative finite)
  rw [here, there, abs_signed_sub, abs_signed_sub] at near
  by_cases same : k = magnitude v
  · exact same ▸ nearest
  · -- as near as the nearest one, and another, so that it is even
    have equal := le_antisymm near (nearest.near (magnitude v))
    have other : exact (ofMagnitude negative k) ≠ exact v := by
      intro collide
      have zero : |signed negative (worth k) - signed negative (worth (magnitude v))| = 0 := by
        rw [← there, ← here, collide, sub_self, abs_zero]
      rw [abs_signed_sub, abs_eq_zero, sub_eq_zero] at zero
      exact same (worth_strictMono.injective zero)
    have even := h.even _ (isFinite_ofMagnitude negative finite) other
    rw [here, there, abs_signed_sub, abs_signed_sub, parity] at even
    exact ⟨fun j => near.trans (nearest.near j), fun _ _ _ => even equal⟩

theorem IsNearest.roundsTo {y : ℚ} (nonneg : 0 ≤ y) {m : Nat} (h : IsNearest y m)
    (finite : m < infinity) (negative : Bool) :
    RoundsTo negative (signed negative y) (ofMagnitude negative m) := by
  have here := exact_ofMagnitude negative finite
  have origin : |y - worth m| ≤ y := by
    have near := h.near 0
    rwa [worth_zero, sub_zero, abs_of_nonneg nonneg] at near
  refine ⟨isFinite_ofMagnitude negative finite, isNegative_ofMagnitude negative finite,
    fun w w_finite => ?_, fun w w_finite other equal => ?_, ?_⟩
  · rw [here, exact_eq w_finite, abs_signed_sub]
    by_cases same : negative = isNegative w
    · rw [← same, abs_signed_sub]
      exact h.near _
    · rw [abs_signed_sub_of_ne same nonneg (worth_nonneg _)]
      have some := worth_nonneg (magnitude w)
      linarith
  · have parity : (ofMagnitude negative m).toBits.toNat % 2 = m % 2 := by
      rw [toBits_ofMagnitude negative finite]
      split
      · omega
      · rfl
    rw [parity]
    rw [here, exact_eq w_finite] at other equal
    rw [abs_signed_sub] at equal
    by_cases same : negative = isNegative w
    · rw [← same] at other equal
      rw [abs_signed_sub] at equal
      refine h.even (magnitude w) (fun collide => ?_) equal
      exact other (by rw [collide])
    · -- a double of the other sign is no nearer than zero is
      rw [abs_signed_sub_of_ne same nonneg (worth_nonneg _)] at equal
      have some := worth_nonneg (magnitude w)
      have none : worth (magnitude w) = 0 := by linarith
      rw [none, signed_zero] at other
      refine h.even 0 (fun zero => ?_) ?_
      · rw [← zero, worth_zero, signed_zero] at other
        exact other rfl
      · rw [worth_zero, sub_zero, abs_of_nonneg nonneg]
        linarith
  · rw [abs_signed, abs_of_nonneg nonneg]
    exact h.lt_infinity_iff.mp finite

theorem roundsTo_iff {negative : Bool} {y : ℚ} (nonneg : 0 ≤ y) {v : Float} :
    RoundsTo negative (signed negative y) v ↔
      ∃ m, (m < infinity ∧ IsNearest y m) ∧ ofMagnitude negative m = v := by
  constructor
  · intro h
    refine ⟨magnitude v, ⟨magnitude_lt_infinity h.finite, h.isNearest nonneg⟩, ?_⟩
    rw [← h.sign, ofMagnitude_magnitude]
  · rintro ⟨m, ⟨finite, nearest⟩, rfl⟩
    exact nearest.roundsTo nonneg finite negative

end Binary64

/-! ## The double of a decimal -/

namespace Decimal

theorem den_ratio (d : Decimal) : 0 < d.ratio.den := Ratio.den_scaled (by decide) _ _

theorem value_ratio (d : Decimal) : d.ratio.value = d.digits * (10 : ℚ) ^ d.exponent := by
  rw [ratio, Ratio.value_scaled]
  norm_num

theorem two_zpow_le_ten_zpow : (2 : ℚ) ^ (1075 : Int) ≤ 10 ^ (401 : Int) := by
  calc (2 : ℚ) ^ (1075 : Int) = (2 ^ 43) ^ 25 := by
        rw [← pow_mul]
        rfl
    _ ≤ (10 ^ 16) ^ 25 := by
        gcongr
        norm_num
    _ = 10 ^ (400 : Int) := by
        rw [← pow_mul]
        rfl
    _ ≤ 10 ^ (401 : Int) := zpow_le_zpow_right₀ (by norm_num) (by decide)

/-- The tests that spare the powers of ten decide as rounding would. -/
theorem magnitude?_eq (d : Decimal) : d.magnitude? = Binary64.nearest? d.ratio := by
  unfold magnitude?
  split
  · next zero => simp [Binary64.nearest?, ratio, Ratio.scaled, zero]
  · next nonzero =>
    have positive : 0 < d.digits := Nat.pos_of_ne_zero nonzero
    split
    · next large =>
      refine (Binary64.nearest?_eq_none d.den_ratio ?_).symm
      rw [d.value_ratio]
      have one : (1 : ℚ) ≤ d.digits := by exact_mod_cast positive
      calc (2 : ℚ) ^ (1024 : Int) ≤ 2 ^ (1075 : Int) :=
            zpow_le_zpow_right₀ (by norm_num) (by decide)
        _ ≤ 10 ^ (401 : Int) := two_zpow_le_ten_zpow
        _ ≤ 10 ^ d.exponent := zpow_le_zpow_right₀ (by norm_num) (by omega)
        _ ≤ d.digits * 10 ^ d.exponent := le_mul_of_one_le_left (by positivity) one
    · split
      · next small =>
        refine (Binary64.nearest?_eq_zero d.den_ratio ?_).symm
        rw [d.value_ratio]
        have digits : (d.digits : ℚ) < 10 ^ (Nat.log2 d.digits + 1) := by
          calc (d.digits : ℚ) < 2 ^ (Nat.log2 d.digits + 1) := by exact_mod_cast Nat.lt_log2_self
            _ ≤ 10 ^ (Nat.log2 d.digits + 1) := by gcongr; norm_num
        calc (d.digits : ℚ) * 10 ^ d.exponent
            < 10 ^ (Nat.log2 d.digits + 1) * 10 ^ d.exponent := by gcongr
          _ = 10 ^ ((Nat.log2 d.digits + 1 : Nat) + d.exponent) := by
            rw [← zpow_natCast, ← zpow_add₀ (by norm_num)]
          _ ≤ 10 ^ (-401 : Int) := zpow_le_zpow_right₀ (by norm_num) (by push_cast; omega)
          _ ≤ 2 ^ (-1075 : Int) := by
            rw [zpow_neg, zpow_neg]
            exact inv_anti₀ (by positivity) two_zpow_le_ten_zpow
      · rfl

def value (d : Decimal) : ℚ := signed d.negative (d.digits * 10 ^ d.exponent)

theorem unsigned_nonneg (d : Decimal) : (0 : ℚ) ≤ d.digits * 10 ^ d.exponent := by positivity

theorem toFloat?_eq_some_iff (d : Decimal) (v : Float) :
    d.toFloat? = some v ↔ Binary64.RoundsTo d.negative d.value v := by
  rw [toFloat?, Option.map_eq_some_iff, magnitude?_eq, value,
    Binary64.roundsTo_iff d.unsigned_nonneg, ← value_ratio]
  simp only [Binary64.nearest?_eq_some_iff d.den_ratio]

theorem toFloat?_eq_none_iff (d : Decimal) :
    d.toFloat? = none ↔ Binary64.overflow ≤ |d.value| := by
  rw [toFloat?, Option.map_eq_none_iff, magnitude?_eq, Binary64.nearest?_eq_none_iff d.den_ratio,
    value, abs_signed, abs_of_nonneg d.unsigned_nonneg, value_ratio]

end Decimal

end TagFormula.Number
