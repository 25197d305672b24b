import Mathlib
import TagFormula.Number.Binary64

/-!
A finite double is its sign and its magnitude, and the magnitude is below that of infinity. What
comparisons and tests say of a double is read off its bits.
-/
namespace TagFormula.Number.Binary64

open Float.Model.UnpackedFloat

theorem ofMagnitude_magnitude (v : Float) : ofMagnitude (isNegative v) (magnitude v) = v := by
  have bound : v.toBits.toNat < 2 ^ 64 := v.toBits.toNat_lt
  have bits : (if isNegative v then 0x8000000000000000 + magnitude v else magnitude v) =
      v.toBits.toNat := by
    unfold isNegative magnitude
    by_cases negative : 0x8000000000000000 ≤ v.toBits.toNat
    · rw [if_pos (decide_eq_true negative)]
      omega
    · rw [if_neg (by simpa using negative)]
      omega
  rw [ofMagnitude, bits, UInt64.ofNat_toNat, Float.ofBits_toBits]

/-! ## The fields of a double -/

theorem toNat_unpackMantissa (b : BitVec 64) :
    (@unpackMantissa .binary64 b).toNat = b.toNat % 2 ^ 52 := by
  rw [unpackMantissa_def, BitVec.extractLsb'_toNat, Nat.shiftRight_zero]

theorem toNat_unpackExponent (b : BitVec 64) :
    (@unpackExponent .binary64 b).toNat = b.toNat / 2 ^ 52 % 2 ^ 11 := by
  rw [unpackExponent_def, BitVec.extractLsb'_toNat, Nat.shiftRight_eq_div_pow]

theorem toNat_unpackSign (b : BitVec 64) :
    (@unpackSign .binary64 b).toNat = b.toNat / 2 ^ 63 % 2 := by
  rw [unpackSign_def, BitVec.extractLsb'_toNat, Nat.shiftRight_eq_div_pow]
  rfl

theorem magnitude_eq_fields (v : Float) : magnitude v =
    (@unpackExponent .binary64 v.toBits.toBitVec).toNat * 2 ^ 52 +
      (@unpackMantissa .binary64 v.toBits.toBitVec).toNat := by
  have whole : v.toBits.toBitVec.toNat = v.toBits.toNat := rfl
  rw [toNat_unpackMantissa, toNat_unpackExponent, whole, magnitude]
  omega

theorem ofBitVec_unpackSign (v : Float) : Sign.ofBitVec (@unpackSign .binary64 v.toBits.toBitVec) =
    if isNegative v then .negative else .positive := by
  have field := toNat_unpackSign v.toBits.toBitVec
  have bound : v.toBits.toNat < 2 ^ 64 := v.toBits.toNat_lt
  have whole : v.toBits.toBitVec.toNat = v.toBits.toNat := rfl
  unfold isNegative
  by_cases negative : 0x8000000000000000 ≤ v.toBits.toNat
  · have one : @unpackSign .binary64 v.toBits.toBitVec = 1#1 := by
      apply BitVec.eq_of_toNat_eq
      rw [field]
      show _ = 1
      omega
    rw [one, decide_eq_true negative]
    rfl
  · have zero : @unpackSign .binary64 v.toBits.toBitVec = 0#1 := by
      apply BitVec.eq_of_toNat_eq
      rw [field]
      show _ = 0
      omega
    rw [zero, decide_eq_false negative]
    rfl

theorem exponent_ne_of_isFinite {v : Float} (finite : v.isFinite = true) :
    @unpackExponent .binary64 v.toBits.toBitVec ≠ -1#11 := by
  intro ones
  have unpacked : (unpack .binary64 v.toBits.toBitVec).isFinite = true := finite
  unfold unpack at unpacked
  simp only at unpacked
  rw [if_pos ones] at unpacked
  split at unpacked
  · cases unpacked
  · cases unpacked

theorem magnitude_lt_infinity {v : Float} (finite : v.isFinite = true) :
    magnitude v < infinity := by
  have parts := magnitude_eq_fields v
  have few : (@unpackMantissa .binary64 v.toBits.toBitVec).toNat < 2 ^ 52 :=
    (@unpackMantissa .binary64 v.toBits.toBitVec).isLt
  have less : (@unpackExponent .binary64 v.toBits.toBitVec).toNat < 2 ^ 11 :=
    (@unpackExponent .binary64 v.toBits.toBitVec).isLt
  have notOnes : (@unpackExponent .binary64 v.toBits.toBitVec).toNat ≠ 2047 := fun ones =>
    exponent_ne_of_isFinite finite (BitVec.eq_of_toNat_eq ones)
  unfold infinity
  omega

/-! ## What the tests say of a double -/

theorem isNaN_of_isFinite {v : Float} (finite : v.isFinite = true) : v.isNaN = false := by
  have unpacked : (unpack .binary64 v.toBits.toBitVec).isFinite = true := finite
  show (unpack .binary64 v.toBits.toBitVec).isNaN = false
  cases shape : unpack .binary64 v.toBits.toBitVec with
  | notANumber =>
    rw [shape] at unpacked
    cases unpacked
  | _ => rfl

theorem isInf_of_isFinite {v : Float} (finite : v.isFinite = true) : v.isInf = false := by
  have unpacked : (unpack .binary64 v.toBits.toBitVec).isFinite = true := finite
  show (unpack .binary64 v.toBits.toBitVec).isInf = false
  cases shape : unpack .binary64 v.toBits.toBitVec with
  | infinity sign =>
    rw [shape] at unpacked
    cases unpacked
  | _ => rfl

theorem isNaN_or_isInf {v : Float} (infinite : v.isFinite = false) :
    v.isNaN = true ∨ v.isInf = true := by
  have unpacked : (unpack .binary64 v.toBits.toBitVec).isFinite = false := infinite
  show (unpack .binary64 v.toBits.toBitVec).isNaN = true ∨
    (unpack .binary64 v.toBits.toBitVec).isInf = true
  generalize unpack .binary64 v.toBits.toBitVec = u at *
  cases u with
  | notANumber => exact .inl rfl
  | infinity sign => exact .inr rfl
  | zero sign => cases unpacked
  | finite sign m e p => cases unpacked

theorem magnitude_pos {v : Float} (nonzero : (v == 0) = false) : 0 < magnitude v := by
  refine Nat.pos_of_ne_zero fun none => ?_
  have same := ofMagnitude_magnitude v
  rw [none] at same
  rw [← same] at nonzero
  generalize isNegative v = negative at nonzero
  revert nonzero
  cases negative with
  | true => decide
  | false => decide

/-! ## From a magnitude to a double -/

theorem exponent_ne_of_lt_infinity {b : BitVec 64}
    (finite : b.toNat % 0x8000000000000000 < infinity) : @unpackExponent .binary64 b ≠ -1#11 := by
  intro ones
  have all : (@unpackExponent .binary64 b).toNat = 2047 := congrArg BitVec.toNat ones
  rw [toNat_unpackExponent] at all
  unfold infinity at finite
  omega

theorem isFinite_unpack {b : BitVec 64} (field : @unpackExponent .binary64 b ≠ -1#11) :
    (unpack .binary64 b).isFinite = true := by
  unfold unpack
  simp only
  rw [if_neg field]
  split
  · split
    · rfl
    · rfl
  · rfl

section OfMagnitude

variable (negative : Bool) {m : Nat} (finite : m < infinity)

include finite

/-- The double of a finite magnitude keeps these bits. Beyond infinity that fails, for all patterns
that are not a number make one double. -/
theorem toBits_ofMagnitude :
    (ofMagnitude negative m).toBits.toNat = if negative then 0x8000000000000000 + m else m := by
  have bound : (if negative then 0x8000000000000000 + m else m) < 2 ^ 64 := by
    unfold infinity at finite
    split
    · omega
    · omega
  let b := (UInt64.ofNat (if negative then 0x8000000000000000 + m else m)).toBitVec
  have bits : b.toNat = if negative then 0x8000000000000000 + m else m := Nat.mod_eq_of_lt bound
  have low : b.toNat % 0x8000000000000000 < infinity := by
    unfold infinity at *
    rw [bits]
    split
    · omega
    · omega
  have field := exponent_ne_of_lt_infinity low
  have kept := @pack_unpack_of_valid .binary64 b ⟨fun ones => (field ones).elim⟩ (by decide)
  rw [← bits]
  exact congrArg BitVec.toNat kept

theorem magnitude_ofMagnitude : magnitude (ofMagnitude negative m) = m := by
  rw [magnitude, toBits_ofMagnitude negative finite]
  unfold infinity at finite
  split
  · omega
  · omega

theorem isNegative_ofMagnitude : isNegative (ofMagnitude negative m) = negative := by
  rw [isNegative, toBits_ofMagnitude negative finite]
  unfold infinity at finite
  cases negative with
  | true => exact decide_eq_true (Nat.le_add_right _ _)
  | false =>
    refine decide_eq_false ?_
    rw [if_neg Bool.false_ne_true]
    omega

theorem isFinite_ofMagnitude : (ofMagnitude negative m).isFinite = true := by
  apply isFinite_unpack
  apply exponent_ne_of_lt_infinity
  have same : (ofMagnitude negative m).toBits.toNat % 0x8000000000000000 = m :=
    magnitude_ofMagnitude negative finite
  exact same.trans_lt finite

end OfMagnitude

/-! ## Positive doubles -/

theorem unpackSign_of_positive {b : BitVec 64} {m : Nat} {e : Int} {p : 0 < m}
    (shape : unpack .binary64 b = .finite .positive m e p) : @unpackSign .binary64 b = 0#1 := by
  have sign (s : BitVec 1) (same : Sign.ofBitVec s = .positive) : s = 0#1 := by
    unfold Sign.ofBitVec at same
    split at same
    · assumption
    · cases same
  unfold unpack at shape
  simp only at shape
  split at shape
  · split at shape
    · cases shape
    · cases shape
  · split at shape
    · split at shape
      · cases shape
      · injection shape with same
        exact sign _ same
    · injection shape with same
      exact sign _ same

theorem unpack_of_pos {v : Float} (positive : 0 < v) (finite : v.isFinite = true) :
    ∃ m e p, unpack .binary64 v.toBits.toBitVec = .finite .positive m e p := by
  have above : (Float.Model.UnpackedFloat.zero .positive).lt
      (unpack .binary64 v.toBits.toBitVec) = true := of_decide_eq_true positive
  have unpacked : (unpack .binary64 v.toBits.toBitVec).isFinite = true := finite
  generalize unpack .binary64 v.toBits.toBitVec = u at *
  cases u with
  | notANumber => cases unpacked
  | infinity sign => cases unpacked
  | zero sign => cases above
  | finite sign m e p =>
    cases sign with
    | negative => cases above
    | positive => exact ⟨m, e, p, rfl⟩

theorem isNegative_of_pos {v : Float} (positive : 0 < v) (finite : v.isFinite = true) :
    isNegative v = false := by
  obtain ⟨m, e, p, shape⟩ := unpack_of_pos positive finite
  have sign := congrArg BitVec.toNat (unpackSign_of_positive shape)
  rw [toNat_unpackSign] at sign
  have top : v.toBits.toNat / 2 ^ 63 % 2 = 0 := sign
  have bound : v.toBits.toNat < 2 ^ 64 := v.toBits.toNat_lt
  rw [isNegative, decide_eq_false_iff_not]
  omega

theorem beq_zero_of_pos {v : Float} (positive : 0 < v) (finite : v.isFinite = true) :
    (v == 0) = false := by
  obtain ⟨m, e, p, shape⟩ := unpack_of_pos positive finite
  show (unpack .binary64 v.toBits.toBitVec).beq (.zero .positive) = false
  rw [shape]
  rfl

end TagFormula.Number.Binary64
