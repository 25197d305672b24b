import Mathlib.Algebra.Order.Field.Power
import Mathlib.Data.Int.Log
import Mathlib.Data.Rat.Floor
import Mathlib.Tactic.FieldSimp
import Mathlib.Tactic.GCongr
import Mathlib.Tactic.Linarith
import Mathlib.Tactic.NormNum
import Mathlib.Tactic.Positivity
import Mathlib.Tactic.Ring
import TagFormula.Number.Binary64

/-!
Ratios as numbers. The power of two below a ratio is that below its number, so the place of the last
bit that is kept goes by the number; a magnitude is put together from its place and its mantissa.
-/
namespace TagFormula.Number

/-! ## The number a ratio stands for -/

def Ratio.value (r : Ratio) : ℚ := r.num / r.den

theorem zpow_eq_div (b : ℚ) (e : Int) :
    b ^ e = b ^ e.toNat / b ^ (-e).toNat := by
  rcases Int.le_total 0 e with up | down
  · obtain ⟨n, rfl⟩ := Int.eq_ofNat_of_zero_le up
    simp
  · obtain ⟨n, same⟩ := Int.eq_ofNat_of_zero_le (Int.neg_nonneg_of_nonpos down)
    obtain rfl : e = -(n : Int) := by omega
    simp

theorem Ratio.value_scaled (base count : Nat) (place : Int) :
    (Ratio.scaled base count place).value = count * (base : ℚ) ^ place := by
  rw [zpow_eq_div, Ratio.value, Ratio.scaled, Nat.pow_eq, Nat.pow_eq]
  push_cast
  ring

theorem Ratio.den_scaled {base : Nat} (positive : 0 < base) (count : Nat) (place : Int) :
    0 < (Ratio.scaled base count place).den := Nat.pow_pos positive

theorem Ratio.value_pos {r : Ratio} (num : 0 < r.num) (den : 0 < r.den) : 0 < r.value := by
  unfold Ratio.value
  positivity

theorem Ratio.zpow_le_value_iff {r : Ratio} (den : 0 < r.den) (e : Int) :
    (2 : ℚ) ^ e ≤ r.value ↔ 2 ^ e.toNat * r.den ≤ r.num * 2 ^ (-e).toNat := by
  have below : (0 : ℚ) < 2 ^ (-e).toNat := by positivity
  have denominator : (0 : ℚ) < r.den := by exact_mod_cast den
  rw [zpow_eq_div, Ratio.value, div_le_div_iff₀ below denominator]
  exact_mod_cast Iff.rfl

namespace Binary64

/-! ## Rounding a ratio -/

theorem log_eq_of_mem {v : ℚ} {e : Int} (positive : 0 < v) (low : 2 ^ e ≤ v)
    (high : v < 2 ^ (e + 1)) : Int.log 2 v = e := by
  have reached : e ≤ Int.log 2 v :=
    (Int.zpow_le_iff_le_log Nat.one_lt_two positive).mp (by exact_mod_cast low)
  have bounded : Int.log 2 v < e + 1 :=
    (Int.lt_zpow_iff_log_lt Nat.one_lt_two positive).mp (by exact_mod_cast high)
  omega

theorem floorLog2_eq {r : Ratio} (num : 0 < r.num) (den : 0 < r.den) :
    floorLog2 r = Int.log 2 r.value := by
  have positive := Ratio.value_pos num den
  have denominator : (0 : ℚ) < r.den := by exact_mod_cast den
  have num_low : (2 : ℚ) ^ Nat.log2 r.num ≤ r.num := by
    exact_mod_cast Nat.log2_self_le num.ne'
  have num_high : (r.num : ℚ) < 2 ^ (Nat.log2 r.num + 1) := by
    exact_mod_cast Nat.lt_log2_self
  have den_low : (2 : ℚ) ^ Nat.log2 r.den ≤ r.den := by
    exact_mod_cast Nat.log2_self_le den.ne'
  have den_high : (r.den : ℚ) < 2 ^ (Nat.log2 r.den + 1) := by
    exact_mod_cast Nat.lt_log2_self
  unfold floorLog2
  generalize Nat.log2 r.num = a at num_low num_high ⊢
  generalize Nat.log2 r.den = b at den_low den_high ⊢
  have high : r.value < 2 ^ ((a : Int) - b + 1) := by
    rw [Ratio.value, div_lt_iff₀ denominator]
    calc (r.num : ℚ) < 2 ^ (a + 1) := num_high
      _ = 2 ^ ((a : Int) - b + 1) * 2 ^ b := by
        rw [← zpow_natCast, ← zpow_natCast, ← zpow_add₀ two_ne_zero]
        congr 1
        omega
      _ ≤ 2 ^ ((a : Int) - b + 1) * r.den := by gcongr
  have low : (2 : ℚ) ^ ((a : Int) - b - 1) ≤ r.value := by
    rw [Ratio.value, le_div_iff₀ denominator]
    calc (2 : ℚ) ^ ((a : Int) - b - 1) * r.den
        ≤ 2 ^ ((a : Int) - b - 1) * 2 ^ (b + 1) := by gcongr
      _ = 2 ^ a := by
        rw [← zpow_natCast, ← zpow_natCast, ← zpow_add₀ two_ne_zero]
        congr 1
        omega
      _ ≤ r.num := num_low
  simp only
  split
  · next fits => exact (log_eq_of_mem positive ((Ratio.zpow_le_value_iff den _).mpr fits) high).symm
  · next exceeds =>
    have less : r.value < 2 ^ ((a : Int) - b) :=
      lt_of_not_ge fun fits => exceeds ((Ratio.zpow_le_value_iff den _).mp fits)
    refine (log_eq_of_mem positive low ?_).symm
    rwa [sub_add_cancel]

def roundedAt (r : Ratio) (place : Int) : Nat :=
  roundHalfEven (r.num * 2 ^ (-place).toNat) (r.den * 2 ^ place.toNat)

theorem nearest?_of_ne_zero {r : Ratio} (nonzero : r.num ≠ 0) :
    nearest? r =
      if (lastPlace r + 1074).toNat * 2 ^ 52 + roundedAt r (lastPlace r) < infinity then
        some ((lastPlace r + 1074).toNat * 2 ^ 52 + roundedAt r (lastPlace r))
      else none := by
  rw [nearest?, if_neg nonzero]
  rfl

/-! ## The ratio of a magnitude -/

theorem den_ratio (m : Nat) : 0 < (ratio m).den := Ratio.den_scaled Nat.two_pos _ _

theorem value_ratio (m : Nat) :
    (ratio m).value = (dyadic m).mantissa * (2 : ℚ) ^ (dyadic m).place := by
  rw [ratio, Ratio.value_scaled]
  norm_num

theorem magnitude_dyadic (m : Nat) :
    ((dyadic m).place + 1074).toNat * 2 ^ 52 + (dyadic m).mantissa = m := by
  unfold dyadic
  simp only
  split
  · next subnormal =>
    simp only
    omega
  · next normal =>
    simp only
    omega

end Binary64

end TagFormula.Number
