import TagFormula.Number.Shortest
import TagFormula.Proofs.Nearest

/-!
The shortest decimal that is written for a magnitude is read back as that magnitude. Larger
magnitudes have no smaller power of ten in front, so a power is reached at the magnitude of that
power and not before.
-/
namespace TagFormula.Number

namespace Shortest

theorem nearer_eq (tie : Tie) (low rest den : Nat) :
    nearer tie low rest den = low ∨ nearer tie low rest den = low + 1 := by
  unfold nearer
  split
  · exact .inl rfl
  · split
    · exact .inr rfl
    · cases tie with
      | up => exact .inr rfl
      | even =>
        simp only
        omega

theorem readsBack_of_onGrid? {tie : Tie} {m digits : Nat} {place : Int}
    (h : onGrid? tie m place = some digits) : readsBack m digits place = true := by
  unfold onGrid? at h
  simp only at h
  split at h
  · next below above =>
    cases h
    rcases nearer_eq tie _ _ _ with low | high
    · rw [low]
      exact below
    · rw [high]
      exact above
  · next below _ => exact Option.some.inj h ▸ below
  · next _ above => exact Option.some.inj h ▸ above
  · cases h

theorem readsBack_of_search {tie : Tie} {m count : Nat} {place : Int} {d : Scaled}
    (h : search tie m count place = some d) : readsBack m d.digits d.place = true := by
  induction count generalizing place with
  | zero => cases h
  | succ count ih =>
    unfold search at h
    split at h
    · next found =>
      cases h
      exact readsBack_of_onGrid? found
    · exact ih h

theorem value_exact (m : Nat) :
    (Ratio.scaled 10 (exact m).digits (exact m).place).value = (Binary64.ratio m).value := by
  rw [Ratio.value_scaled, Binary64.value_ratio]
  unfold exact
  simp only
  generalize (Binary64.dyadic m).place = p
  rcases Int.le_total 0 p with up | down
  · obtain ⟨n, rfl⟩ := Int.eq_ofNat_of_zero_le up
    simp
  · obtain ⟨n, same⟩ := Int.eq_ofNat_of_zero_le (Int.neg_nonneg_of_nonpos down)
    obtain rfl : p = -(n : Int) := by omega
    have ten : (10 : ℚ) ^ n = 5 ^ n * 2 ^ n := by
      rw [← mul_pow]
      norm_num
    simp [ten]
    field_simp

end Shortest

theorem nearest?_shortest (tie : Tie) {m : Nat} (finite : m < Binary64.infinity) :
    Binary64.nearest? (Ratio.scaled 10 (shortest tie m).digits (shortest tie m).place) =
      some m := by
  unfold shortest
  cases found : Shortest.search tie m 24 (Shortest.topPlace m) with
  | some d =>
    have readsBack := Shortest.readsBack_of_search found
    exact eq_of_beq readsBack
  | none =>
    rw [Option.getD_none, ← Binary64.nearest?_ratio finite]
    exact Binary64.nearest?_congr (Ratio.den_scaled (by decide) _ _) (Binary64.den_ratio m)
      (Shortest.value_exact m)

theorem digits_shortest_pos (tie : Tie) {m : Nat} (positive : 0 < m)
    (finite : m < Binary64.infinity) : 0 < (shortest tie m).digits := by
  have reads := nearest?_shortest tie finite
  refine Nat.pos_of_ne_zero fun none => ?_
  rw [none] at reads
  have nothing : Binary64.nearest? (Ratio.scaled 10 0 (shortest tie m).place) = some 0 := by
    simp [Binary64.nearest?, Ratio.scaled]
  exact positive.ne (Option.some.inj (nothing.symm.trans reads))

/-! ## The power of its first digit -/

def leadingPower (tie : Tie) (m : Nat) : Int :=
  (shortest tie m).place + (Nat.toDigits 10 (shortest tie m).digits).length - 1

theorem length_toDigits_lt_iff {n : Nat} (positive : 0 < n) (place k : Int) :
    place + (Nat.toDigits 10 n).length - 1 < k ↔ (n : ℚ) * 10 ^ place < 10 ^ k := by
  have some := Nat.length_toDigits_pos (b := 10) (n := n)
  have unit : (0 : ℚ) < 10 ^ place := by positivity
  by_cases above : place < k
  · obtain ⟨j, rfl⟩ : ∃ j : Nat, k = place + (j + 1 : Nat) := ⟨(k - place - 1).toNat, by omega⟩
    rw [zpow_add₀ (by norm_num), mul_comm, mul_lt_mul_iff_right₀ unit, zpow_natCast]
    have few := Nat.length_toDigits_le_iff (b := 10) (n := n) (by decide) (Nat.succ_pos j)
    constructor
    · intro less
      exact_mod_cast few.mp (by omega)
    · intro less
      have short := few.mpr (by exact_mod_cast less)
      omega
  · refine iff_of_false (by omega) (not_lt.mpr ?_)
    have one : (1 : ℚ) ≤ n := by exact_mod_cast positive
    calc (10 : ℚ) ^ k ≤ 10 ^ place := zpow_le_zpow_right₀ (by norm_num) (not_lt.mp above)
      _ ≤ n * 10 ^ place := le_mul_of_one_le_left unit.le one

theorem leadingPower_lt_iff {tie : Tie} {m t : Nat} {k : Int} (positive : 0 < m)
    (finite : m < Binary64.infinity) (threshold : Binary64.nearest? (Ratio.scaled 10 1 k) = some t)
    (itself : leadingPower tie t = k) : leadingPower tie m < k ↔ m < t := by
  have den (count : Nat) (place : Int) : 0 < (Ratio.scaled 10 count place).den :=
    Ratio.den_scaled (by decide) count place
  have nearest := ((Binary64.nearest?_eq_some_iff (den _ _)).mp (nearest?_shortest tie finite)).2
  have nearest' := ((Binary64.nearest?_eq_some_iff (den _ _)).mp threshold).2
  have digits := digits_shortest_pos tie positive finite
  have order := length_toDigits_lt_iff digits (shortest tie m).place k
  rw [Ratio.value_scaled] at nearest nearest'
  push_cast at nearest nearest'
  rw [one_mul] at nearest'
  constructor
  · intro less
    have most := nearest.mono nearest' (order.mp less).le
    refine Nat.lt_of_le_of_ne most ?_
    rintro rfl
    exact less.ne itself
  · intro below
    by_contra more
    have least := nearest'.mono nearest (not_lt.mp fun small => more (order.mpr small))
    omega

end TagFormula.Number
