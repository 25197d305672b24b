import Mathlib.Order.Monotone.Basic
import TagFormula.Proofs.Rounding

/-!
The nearest magnitude. Magnitudes grow with the numbers they stand for, so a number lies between two
neighbours, and the magnitude it is rounded to is the nearer of them, the even one in the middle.
There is only one such, a larger number never has a smaller one, and it is finite exactly for
numbers below the middle between the largest double and the next power of two.
-/
namespace TagFormula.Number.Binary64

/-! ## What magnitudes stand for -/

/-- The number a magnitude stands for. From infinity on it is what it would be if the exponents went
on, so that numbers beyond the doubles have a nearest magnitude too. -/
def worth (m : Nat) : ℚ := (ratio m).value

theorem dyadic_subnormal {n : Nat} (few : n < 2 ^ 52) : dyadic n = ⟨n, -1074⟩ := by
  have field : n / 0x10000000000000 = 0 := by omega
  have fraction : n % 0x10000000000000 = n := by omega
  simp only [dyadic, field, fraction, if_true]

theorem dyadic_normal (k : Nat) {n : Nat} (few : n < 2 ^ 52) :
    dyadic ((k + 1) * 2 ^ 52 + n) = ⟨2 ^ 52 + n, (k : Int) - 1074⟩ := by
  have field : ((k + 1) * 2 ^ 52 + n) / 0x10000000000000 = k + 1 := by omega
  have fraction : ((k + 1) * 2 ^ 52 + n) % 0x10000000000000 = n := by omega
  simp only [dyadic, field, fraction, Nat.add_one_ne_zero, if_false, Dyadic.mk.injEq]
  omega

theorem worth_mantissa {place : Int} {n : Nat} (least : -1074 ≤ place) (few : n ≤ 2 ^ 53)
    (normal : 2 ^ 52 ≤ n ∨ place = -1074) :
    worth ((place + 1074).toNat * 2 ^ 52 + n) = n * (2 : ℚ) ^ place := by
  obtain ⟨k, rfl⟩ : ∃ k : Nat, place = (k : Int) - 1074 := ⟨(place + 1074).toNat, by omega⟩
  have back : ((k : Int) - 1074 + 1074).toNat = k := by omega
  rw [worth, value_ratio, back]
  by_cases subnormal : n < 2 ^ 52
  · obtain rfl : k = 0 := by omega
    rw [Nat.zero_mul, Nat.zero_add, dyadic_subnormal subnormal]
    rfl
  · by_cases last : n = 2 ^ 53
    · have next : k * 2 ^ 52 + n = (k + 1 + 1) * 2 ^ 52 + 0 := by omega
      have double : (2 : ℚ) ^ ((k : Int) - 1074 + 1) = 2 ^ ((k : Int) - 1074) * 2 := by
        rw [zpow_add₀ two_ne_zero, zpow_one]
      have shifted : ((k + 1 : Nat) : Int) - 1074 = (k : Int) - 1074 + 1 := by omega
      rw [next, dyadic_normal (k + 1) (Nat.two_pow_pos 52), shifted, double, last]
      push_cast
      ring
    · have same : k * 2 ^ 52 + n = (k + 1) * 2 ^ 52 + (n - 2 ^ 52) := by omega
      have whole : 2 ^ 52 + (n - 2 ^ 52) = n := by omega
      rw [same, dyadic_normal k (by omega), whole]

theorem dyadic_fits (m : Nat) : (dyadic m).mantissa < 2 ^ 53 ∧ -1074 ≤ (dyadic m).place ∧
    (2 ^ 52 ≤ (dyadic m).mantissa ∨ (dyadic m).place = -1074) := by
  unfold dyadic
  simp only
  split
  · next subnormal => exact ⟨by simp only; omega, Int.le_refl _, .inr rfl⟩
  · next normal =>
    simp only
    omega

theorem worth_succ (m : Nat) : worth (m + 1) = worth m + 2 ^ (dyadic m).place := by
  obtain ⟨few, least, normal⟩ := dyadic_fits m
  have here := worth_mantissa least (Nat.le_of_lt few) normal
  have next := worth_mantissa least (n := (dyadic m).mantissa + 1) few
    (normal.imp_left Nat.le_succ_of_le)
  rw [← Nat.add_assoc, magnitude_dyadic] at next
  rw [magnitude_dyadic] at here
  rw [next, here]
  push_cast
  ring

theorem worth_strictMono : StrictMono worth := by
  refine strictMono_nat_of_lt_succ fun m => ?_
  rw [worth_succ]
  have step : (0 : ℚ) < 2 ^ (dyadic m).place := by positivity
  linarith

theorem worth_zero : worth 0 = 0 := by
  rw [worth, value_ratio, dyadic_subnormal (Nat.two_pow_pos 52)]
  simp

theorem worth_nonneg (m : Nat) : 0 ≤ worth m := by
  rw [← worth_zero]
  exact worth_strictMono.monotone (Nat.zero_le m)

/-! ## The nearest of them -/

/-- No magnitude is nearer to the number `x` than `m`, and another is as near only if `m` is
even. -/
structure IsNearest (x : ℚ) (m : Nat) : Prop where
  near : ∀ k, |x - worth m| ≤ |x - worth k|
  even : ∀ k, k ≠ m → |x - worth m| = |x - worth k| → m % 2 = 0

section Between

variable {x : ℚ} {k : Nat}

theorem distance_cases (low : worth k ≤ x) (high : x ≤ worth (k + 1)) (j : Nat) :
    (j ≤ k ∧ |x - worth j| = x - worth j) ∨ (k + 1 ≤ j ∧ |x - worth j| = worth j - x) := by
  rcases Nat.lt_or_ge k j with after | before
  · have order := worth_strictMono.monotone (Nat.succ_le_of_lt after)
    exact .inr ⟨after, by rw [abs_of_nonpos (by linarith), neg_sub]⟩
  · have order := worth_strictMono.monotone before
    exact .inl ⟨before, abs_of_nonneg (by linarith)⟩

theorem isNearest_low (low : worth k ≤ x) (nearer : x - worth k ≤ worth (k + 1) - x)
    (tie : x - worth k = worth (k + 1) - x → k % 2 = 0) : IsNearest x k := by
  have high : x ≤ worth (k + 1) := by linarith
  have here : |x - worth k| = x - worth k := abs_of_nonneg (by linarith)
  constructor
  · intro j
    rcases distance_cases low high j with ⟨before, far⟩ | ⟨after, far⟩
    · have order := worth_strictMono.monotone before
      linarith
    · have order := worth_strictMono.monotone after
      linarith
  · intro j other same
    rcases distance_cases low high j with ⟨before, far⟩ | ⟨after, far⟩
    · have order := worth_strictMono (Nat.lt_of_le_of_ne before other)
      linarith
    · have order := worth_strictMono.monotone after
      exact tie (by linarith)

theorem isNearest_high (high : x ≤ worth (k + 1)) (nearer : worth (k + 1) - x ≤ x - worth k)
    (tie : x - worth k = worth (k + 1) - x → (k + 1) % 2 = 0) : IsNearest x (k + 1) := by
  have low : worth k ≤ x := by linarith
  have here : |x - worth (k + 1)| = worth (k + 1) - x := by
    rw [abs_of_nonpos (by linarith), neg_sub]
  constructor
  · intro j
    rcases distance_cases low high j with ⟨before, far⟩ | ⟨after, far⟩
    · have order := worth_strictMono.monotone before
      linarith
    · have order := worth_strictMono.monotone after
      linarith
  · intro j other same
    rcases distance_cases low high j with ⟨before, far⟩ | ⟨after, far⟩
    · have order := worth_strictMono.monotone before
      exact tie (by linarith)
    · have order := worth_strictMono (Nat.lt_of_le_of_ne after (Ne.symm other))
      linarith

end Between

/-- Of two nearest magnitudes both would be even, and one between them nearer. -/
theorem IsNearest.unique {x : ℚ} {m k : Nat} (h : IsNearest x m) (h' : IsNearest x k) :
    m = k := by
  wlog less : m < k generalizing m k with swapped
  · rcases Nat.lt_or_ge k m with more | same
    · exact (swapped h' h more).symm
    · omega
  have same : |x - worth m| = |x - worth k| := le_antisymm (h.near k) (h'.near m)
  have even := h.even k less.ne' same
  have even' := h'.even m less.ne same.symm
  have first := worth_strictMono (Nat.lt_succ_self m)
  have second := worth_strictMono (show m + 1 < k by omega)
  have middle : x - worth m = worth k - x := by
    rcases abs_eq_abs.mp same with equal | opposite
    · linarith
    · linarith
  have nearest := h.near (m + 1)
  rw [abs_of_nonneg (by linarith : 0 ≤ x - worth m)] at nearest
  rcases abs_cases (x - worth (m + 1)) with ⟨right, _⟩ | ⟨left, _⟩
  · linarith
  · linarith

theorem IsNearest.mono {x y : ℚ} {m k : Nat} (h : IsNearest x m) (h' : IsNearest y k)
    (order : x ≤ y) : m ≤ k := by
  by_contra more
  have less : worth k < worth m := worth_strictMono (Nat.not_le.mp more)
  have above : worth k + worth m ≤ 2 * x := by
    have near := sq_le_sq.mpr (h.near k)
    nlinarith
  have below : 2 * y ≤ worth k + worth m := by
    have near := sq_le_sq.mpr (h'.near m)
    nlinarith
  obtain rfl : x = y := by linarith
  exact more (h.unique h').le

/-! ## Rounding finds it -/

def wholeUnits (r : Ratio) (place : Int) : Nat :=
  r.num * 2 ^ (-place).toNat / (r.den * 2 ^ place.toNat)

def partOfUnit (r : Ratio) (place : Int) : ℚ :=
  (r.num * 2 ^ (-place).toNat % (r.den * 2 ^ place.toNat) : Nat) /
    (r.den * 2 ^ place.toNat : Nat)

section Units

variable {r : Ratio} (den : 0 < r.den) (place : Int)

theorem partOfUnit_nonneg : 0 ≤ partOfUnit r place := by
  unfold partOfUnit
  positivity

include den

theorem partOfUnit_lt_one : partOfUnit r place < 1 := by
  have bottom : 0 < r.den * 2 ^ place.toNat := Nat.mul_pos den (Nat.two_pow_pos _)
  rw [partOfUnit, div_lt_one (by exact_mod_cast bottom)]
  exact_mod_cast Nat.mod_lt _ bottom

theorem value_in_units : r.value = (wholeUnits r place + partOfUnit r place) * 2 ^ place := by
  have bottom : 0 < r.den * 2 ^ place.toNat := Nat.mul_pos den (Nat.two_pow_pos _)
  have scaled : r.value = (r.num * 2 ^ (-place).toNat : Nat) /
      (r.den * 2 ^ place.toNat : Nat) * (2 : ℚ) ^ place := by
    rw [Ratio.value, zpow_eq_div]
    push_cast
    field_simp
  unfold wholeUnits partOfUnit
  generalize r.num * 2 ^ (-place).toNat = a at scaled ⊢
  generalize r.den * 2 ^ place.toNat = b at scaled bottom ⊢
  have positive : (0 : ℚ) < b := by exact_mod_cast bottom
  have divided : (a : ℚ) = b * (a / b : Nat) + (a % b : Nat) := by
    exact_mod_cast (Nat.div_add_mod a b).symm
  rw [scaled, divided]
  field_simp

theorem roundedAt_cases :
    (roundedAt r place = wholeUnits r place ∧ partOfUnit r place ≤ 1 / 2 ∧
      (partOfUnit r place = 1 / 2 → wholeUnits r place % 2 = 0)) ∨
    (roundedAt r place = wholeUnits r place + 1 ∧ 1 / 2 ≤ partOfUnit r place ∧
      (partOfUnit r place = 1 / 2 → (wholeUnits r place + 1) % 2 = 0)) := by
  have bottom : 0 < r.den * 2 ^ place.toNat := Nat.mul_pos den (Nat.two_pow_pos _)
  unfold roundedAt wholeUnits partOfUnit
  generalize r.num * 2 ^ (-place).toNat = a
  generalize r.den * 2 ^ place.toNat = b at bottom
  have positive : (0 : ℚ) < b := by exact_mod_cast bottom
  have below : ((a % b : Nat) : ℚ) / b ≤ 1 / 2 ↔ 2 * (a % b) ≤ b := by
    rw [div_le_div_iff₀ positive two_pos, one_mul, mul_comm]
    exact_mod_cast Iff.rfl
  have above : 1 / 2 ≤ ((a % b : Nat) : ℚ) / b ↔ b ≤ 2 * (a % b) := by
    rw [div_le_div_iff₀ two_pos positive, one_mul, mul_comm]
    exact_mod_cast Iff.rfl
  have middle : ((a % b : Nat) : ℚ) / b = 1 / 2 ↔ 2 * (a % b) = b := by
    rw [le_antisymm_iff, below, above]
    omega
  rw [below, above, middle]
  unfold roundHalfEven
  simp only
  split
  · omega
  · split
    · omega
    · omega

end Units

section Rounded

variable {r : Ratio} (num : 0 < r.num) (den : 0 < r.den)

include num den

theorem lastPlace_bounds : r.value < 2 ^ (lastPlace r + 53) ∧
    (2 ^ (lastPlace r + 52) ≤ r.value ∨ lastPlace r = -1074) := by
  have positive := Ratio.value_pos num den
  have place : lastPlace r = max (Int.log 2 r.value - 52) (-1074) := by
    rw [lastPlace, floorLog2_eq num den]
  have low := (Int.zpow_le_iff_le_log Nat.one_lt_two positive).mpr (Int.le_refl _)
  have high := (Int.lt_zpow_iff_log_lt Nat.one_lt_two positive).mpr
    (Int.lt_succ (Int.log 2 r.value))
  push_cast at low high
  constructor
  · calc r.value < 2 ^ (Int.log 2 r.value + 1) := high
      _ ≤ 2 ^ (lastPlace r + 53) := zpow_le_zpow_right₀ (by norm_num) (by omega)
  · by_cases least : lastPlace r = -1074
    · exact .inr least
    · left
      have same : lastPlace r + 52 = Int.log 2 r.value := by omega
      rw [same]
      exact low

theorem wholeUnits_bounds : wholeUnits r (lastPlace r) < 2 ^ 53 ∧
    (2 ^ 52 ≤ wholeUnits r (lastPlace r) ∨ lastPlace r = -1074) := by
  obtain ⟨high, low⟩ := lastPlace_bounds num den
  have value := value_in_units den (lastPlace r)
  have some := partOfUnit_nonneg (r := r) (lastPlace r)
  have less := partOfUnit_lt_one den (lastPlace r)
  generalize lastPlace r = place at *
  generalize partOfUnit r place = part at *
  generalize wholeUnits r place = whole at *
  have unit : (0 : ℚ) < 2 ^ place := by positivity
  rw [value, zpow_add₀ two_ne_zero, mul_comm (2 ^ place : ℚ)] at high low
  have bounded := lt_of_mul_lt_mul_right high unit.le
  constructor
  · have cast : (whole : ℚ) < (2 ^ 53 : Nat) := by
      push_cast
      linarith
    exact_mod_cast cast
  · refine low.imp_left fun reached => ?_
    have least := le_of_mul_le_mul_right reached unit
    have cast : ((2 ^ 52 : Nat) : ℚ) < (whole + 1 : Nat) := by
      push_cast
      linarith
    exact Nat.le_of_lt_succ (by exact_mod_cast cast)

/-- A ratio is rounded to the nearest magnitude. -/
theorem isNearest_rounded :
    IsNearest r.value ((lastPlace r + 1074).toNat * 2 ^ 52 + roundedAt r (lastPlace r)) := by
  have least : -1074 ≤ lastPlace r := Int.le_max_right _ _
  obtain ⟨few, normal⟩ := wholeUnits_bounds num den
  have value := value_in_units den (lastPlace r)
  have some := partOfUnit_nonneg (r := r) (lastPlace r)
  have less := partOfUnit_lt_one den (lastPlace r)
  have cases := roundedAt_cases den (lastPlace r)
  have here := worth_mantissa least few.le normal
  have next := worth_mantissa (n := wholeUnits r (lastPlace r) + 1) least few
    (normal.imp_left Nat.le_succ_of_le)
  generalize lastPlace r = place at *
  generalize roundedAt r place = rounded at *
  generalize partOfUnit r place = part at *
  generalize wholeUnits r place = whole at *
  have unit : (0 : ℚ) < 2 ^ place := by positivity
  rw [← Nat.add_assoc, Nat.cast_add, Nat.cast_one] at next
  obtain ⟨k, base⟩ : ∃ k, (place + 1074).toNat * 2 ^ 52 + whole = k := ⟨_, rfl⟩
  rw [base] at here next
  have left : r.value - worth k = part * 2 ^ place := by
    rw [here, value]
    ring
  have right : worth (k + 1) - r.value = (1 - part) * 2 ^ place := by
    rw [next, value]
    ring
  have half (middle : r.value - worth k = worth (k + 1) - r.value) : part = 1 / 2 := by
    rw [left, right] at middle
    linarith [mul_right_cancel₀ unit.ne' middle]
  rcases cases with ⟨rfl, low, tie⟩ | ⟨rfl, high, tie⟩
  · rw [base]
    refine isNearest_low ?_ ?_ fun middle => ?_
    · exact sub_nonneg.mp (left ▸ mul_nonneg some unit.le)
    · rw [left, right]
      exact mul_le_mul_of_nonneg_right (by linarith) unit.le
    · have even := tie (half middle)
      omega
  · rw [← Nat.add_assoc, base]
    refine isNearest_high ?_ ?_ fun middle => ?_
    · exact sub_nonneg.mp (right ▸ mul_nonneg (by linarith) unit.le)
    · rw [left, right]
      exact mul_le_mul_of_nonneg_right (by linarith) unit.le
    · have even := tie (half middle)
      omega

end Rounded

theorem isNearest_worth (m : Nat) : IsNearest (worth m) m where
  near k := by
    rw [sub_self, abs_zero]
    exact abs_nonneg _
  even k other same := by
    rw [sub_self, abs_zero, eq_comm, abs_eq_zero, sub_eq_zero] at same
    exact (other (worth_strictMono.injective same).symm).elim

theorem isNearest_zero : IsNearest 0 0 := worth_zero ▸ isNearest_worth 0

theorem nearest?_eq_some_iff {r : Ratio} (den : 0 < r.den) {m : Nat} :
    nearest? r = some m ↔ m < infinity ∧ IsNearest r.value m := by
  rcases Nat.eq_zero_or_pos r.num with zero | num
  · have nothing : r.value = 0 := by simp [Ratio.value, zero]
    have found : nearest? r = some 0 := by rw [nearest?, if_pos zero]
    rw [nothing, found, Option.some.injEq]
    constructor
    · rintro rfl
      exact ⟨by decide, isNearest_zero⟩
    · rintro ⟨_, nearest⟩
      exact isNearest_zero.unique nearest
  · have rounded := isNearest_rounded num den
    rw [nearest?_of_ne_zero num.ne']
    generalize (lastPlace r + 1074).toNat * 2 ^ 52 + roundedAt r (lastPlace r) = k at rounded ⊢
    constructor
    · intro found
      split at found
      · next finite => exact Option.some.inj found ▸ ⟨finite, rounded⟩
      · cases found
    · rintro ⟨finite, nearest⟩
      rw [rounded.unique nearest, if_pos finite]

theorem nearest?_congr {r s : Ratio} (r_den : 0 < r.den) (s_den : 0 < s.den)
    (same : r.value = s.value) : nearest? r = nearest? s := by
  refine Option.ext fun m => ?_
  rw [nearest?_eq_some_iff r_den, nearest?_eq_some_iff s_den, same]

theorem nearest?_ratio {m : Nat} (finite : m < infinity) : nearest? (ratio m) = some m :=
  (nearest?_eq_some_iff (den_ratio m)).mpr ⟨finite, isNearest_worth m⟩

/-! ## Beyond the doubles -/

theorem worth_infinity : worth infinity = 2 ^ 1024 := by
  have mantissa : (dyadic infinity).mantissa = 2 ^ 52 := by decide
  have place : (dyadic infinity).place = (972 : Nat) := by decide
  rw [worth, value_ratio, mantissa, place, zpow_natCast, Nat.cast_pow, Nat.cast_ofNat, ← pow_add]

theorem worth_largest : worth (infinity - 1) = 2 ^ 1024 - 2 ^ 971 := by
  have next := worth_succ (infinity - 1)
  have place : (dyadic (infinity - 1)).place = (971 : Nat) := by decide
  rw [show infinity - 1 + 1 = infinity from rfl, worth_infinity, place, zpow_natCast] at next
  exact eq_sub_of_add_eq next.symm

def overflow : ℚ := 2 ^ 1024 - 2 ^ 970

theorem two_mul_overflow : 2 * overflow = worth (infinity - 1) + worth infinity := by
  have double : (2 : ℚ) ^ 971 = 2 ^ 970 * 2 := pow_succ 2 970
  rw [worth_infinity, worth_largest, overflow, double]
  generalize (2 : ℚ) ^ 1024 = a
  generalize (2 : ℚ) ^ 970 = b
  ring

theorem isNearest_overflow : IsNearest overflow infinity := by
  have middle := two_mul_overflow
  have order : worth (infinity - 1) < worth infinity := worth_strictMono (by decide)
  have next : worth (infinity - 1 + 1) = worth infinity := rfl
  refine isNearest_high (k := infinity - 1) ?_ ?_ fun _ => rfl
  · rw [next]
    linarith
  · rw [next]
    linarith

theorem IsNearest.lt_infinity_iff {x : ℚ} {m : Nat} (h : IsNearest x m) :
    m < infinity ↔ x < overflow := by
  constructor
  · intro finite
    by_contra large
    have beyond := isNearest_overflow.mono h (not_lt.mp large)
    omega
  · intro small
    by_contra infinite
    have middle := two_mul_overflow
    have far := worth_strictMono.monotone (not_lt.mp infinite)
    have order : worth (infinity - 1) < worth infinity := worth_strictMono (by decide)
    have near := h.near (infinity - 1)
    rw [abs_of_nonpos (by linarith)] at near
    rcases abs_cases (x - worth (infinity - 1)) with ⟨right, _⟩ | ⟨left, _⟩
    · linarith
    · linarith

theorem exists_isNearest {x : ℚ} (nonneg : 0 ≤ x) : ∃ m, IsNearest x m := by
  rcases nonneg.eq_or_lt with rfl | positive
  · exact ⟨0, isNearest_zero⟩
  · have whole : ((x.num.toNat : Int) : ℚ) = x.num := by
      rw [Int.toNat_of_nonneg (Rat.num_nonneg.mpr nonneg)]
    have value : Ratio.value ⟨x.num.toNat, x.den⟩ = x := by
      rw [Ratio.value, ← Int.cast_natCast, whole, Rat.num_div_den]
    have num : 0 < x.num.toNat := Int.pos_iff_toNat_pos.mp (Rat.num_pos.mpr positive)
    exact ⟨_, value ▸ isNearest_rounded num x.den_pos⟩

theorem nearest?_eq_none_iff {r : Ratio} (den : 0 < r.den) :
    nearest? r = none ↔ overflow ≤ r.value := by
  obtain ⟨m, nearest⟩ := exists_isNearest (x := r.value) (by unfold Ratio.value; positivity)
  rw [← not_lt, ← nearest.lt_infinity_iff]
  constructor
  · intro none finite
    cases none.symm.trans ((nearest?_eq_some_iff den).mpr ⟨finite, nearest⟩)
  · intro infinite
    cases found : nearest? r with
    | none => rfl
    | some k =>
      obtain ⟨finite, other⟩ := (nearest?_eq_some_iff den).mp found
      exact (infinite (nearest.unique other ▸ finite)).elim

theorem nearest?_eq_none {r : Ratio} (den : 0 < r.den) (large : 2 ^ (1024 : Int) ≤ r.value) :
    nearest? r = none := by
  refine (nearest?_eq_none_iff den).mpr (le_trans ?_ large)
  rw [overflow]
  exact sub_le_self _ (by positivity)

theorem nearest?_eq_zero {r : Ratio} (den : 0 < r.den) (small : r.value < 2 ^ (-1075 : Int)) :
    nearest? r = some 0 := by
  have nonneg : 0 ≤ r.value := by
    unfold Ratio.value
    positivity
  have next : worth (0 + 1) = 2 ^ (-1075 : Int) * 2 := by
    rw [worth_succ, worth_zero, zero_add, dyadic_subnormal (Nat.two_pow_pos 52),
      ← zpow_add_one₀ two_ne_zero]
    rfl
  refine (nearest?_eq_some_iff den).mpr ⟨by decide, isNearest_low ?_ ?_ fun _ => rfl⟩
  · rwa [worth_zero]
  · rw [worth_zero, next]
    linarith

end TagFormula.Number.Binary64
