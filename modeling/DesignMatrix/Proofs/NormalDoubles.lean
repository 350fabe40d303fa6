import Mathlib

/-!
# Normal doubles

A double stands for a rational number, or for none. The same number can be written with many
mantissas and exponents. One of them uses all the bits that a double has; rounding finds it, and
packing keeps it.
-/

namespace DesignMatrix

namespace Double

open Float.Model Float.Model.UnpackedFloat

/-- The number that an unpacked double stands for. -/
def unpackedNumber? : UnpackedFloat → Option ℚ
  | .zero _ => some 0
  | .finite sign mantissa exponent _ => some (sign.apply mantissa * 2 ^ exponent)
  | .infinity _ | .notANumber => none

/-- The number that a double stands for, which infinities do not. -/
def number? (x : Float) : Option ℚ := unpackedNumber? x.toModel.unpack

theorem log2_mul_pow {m : ℕ} (nonzero : m ≠ 0) (shift : ℕ) :
    (m * 2 ^ shift).log2 = m.log2 + shift := by
  induction shift with
  | zero => simp
  | succ shift ih =>
    have next : m * 2 ^ (shift + 1) = 2 * (m * 2 ^ shift) := by ring
    rw [next, Nat.log2_two_mul (by positivity), ih, add_assoc]

/-- The mantissa and the exponent of a double that uses all of its 53 bits. -/
structure IsNormal (mantissa : ℕ) (exponent : ℤ) : Prop where
  lower : 2 ^ 52 ≤ mantissa
  upper : mantissa < 2 ^ 53
  least : -1074 ≤ exponent
  greatest : exponent ≤ 971

variable {mantissa : ℕ} {exponent : ℤ}

namespace IsNormal

theorem pos (normal : IsNormal mantissa exponent) : 0 < mantissa :=
  lt_of_lt_of_le (by norm_num) normal.lower

theorem log2_eq (normal : IsNormal mantissa exponent) : mantissa.log2 = 52 :=
  (Nat.log2_eq_iff normal.pos.ne').mpr ⟨normal.lower, normal.upper⟩

theorem targetExponent_eq (normal : IsNormal mantissa exponent) {m : ℕ} {e : ℤ}
    (position : m.log2 + e = 52 + exponent) :
    Format.binary64.targetExponent (totalExponent m e) = exponent := by
  have least := normal.least
  simp only [Format.targetExponent, totalExponent, Format.mantissaBits, Format.minExponent]
  omega

end IsNormal

/-- Shifting drops the zeros that a mantissa ends with, and leaves no trace of them. -/
theorem shiftRight_mul_pow (mantissa shift : ℕ) :
    (⟨mantissa * 2 ^ shift, false, false⟩ : ExtendedMantissa) >>> shift =
      ⟨mantissa, false, false⟩ := by
  induction shift generalizing mantissa with
  | zero => simp [HShiftRight.hShiftRight, Nat.repeat]
  | succ shift ih =>
    have next (extended : ExtendedMantissa) :
        extended >>> (shift + 1) = (extended >>> shift).shiftRightOne := rfl
    have halves : mantissa * 2 ^ (shift + 1) = mantissa * 2 * 2 ^ shift := by ring
    rw [next, halves, ih]
    simp [ExtendedMantissa.shiftRightOne]

section Rounding

variable {m : ℕ} {e : ℤ}

theorem shiftToTargetExponent_eq (normal : IsNormal mantissa exponent) (shift : ℕ) :
    shiftToTargetExponent .binary64 (mantissa * 2 ^ shift) (exponent - shift) .exact =
      (⟨mantissa, false, false⟩, exponent) := by
  have target := normal.targetExponent_eq (m := mantissa * 2 ^ shift) (e := exponent - shift) (by
    rw [log2_mul_pow normal.pos.ne', normal.log2_eq]
    omega)
  have amount : (exponent - (exponent - shift)).toNat = shift := by omega
  simp only [shiftToTargetExponent, target, shiftToExponent, amount,
    ExtendedMantissa.ofMantissaAndAccuracy, shiftRight_mul_pow, sub_add_cancel]

theorem eq_mul_pow_of_same {shift : ℕ}
    (same : (m : ℚ) * 2 ^ (exponent - shift) = mantissa * 2 ^ exponent) :
    m = mantissa * 2 ^ shift := by
  have scaled : (m : ℚ) = mantissa * 2 ^ shift := by
    rw [zpow_sub₀ two_ne_zero, zpow_natCast] at same
    field_simp at same
    rw [same, mul_comm]
  exact_mod_cast scaled

theorem roundWithAccuracy_eq (normal : IsNormal mantissa exponent) (sign : Sign)
    (same : (m : ℚ) * 2 ^ e = mantissa * 2 ^ exponent) (below : e ≤ exponent) :
    roundWithAccuracy .binary64 sign m e .exact =
      .finite sign mantissa exponent normal.pos := by
  obtain ⟨shift, rfl⟩ : ∃ shift : ℕ, e = exponent - shift :=
    ⟨(exponent - e).toNat, by omega⟩
  obtain rfl := eq_mul_pow_of_same same
  have again := shiftToTargetExponent_eq normal 0
  simp only [pow_zero, mul_one, Nat.cast_zero, sub_zero] at again
  simp only [roundWithAccuracy, shiftToTargetExponent_eq normal, again,
    ExtendedMantissa.roundedMantissa, ExtendedMantissa.accuracy, Accuracy.roundToNearestEven,
    normal.pos.ne', dite_false]

/-- Rounding finds the normal form of a number that has one. -/
theorem round_eq (normal : IsNormal mantissa exponent) (sign : Sign)
    (same : (m : ℚ) * 2 ^ e = mantissa * 2 ^ exponent) :
    UnpackedFloat.round .binary64 sign m e = .finite sign mantissa exponent normal.pos := by
  have log := normal.log2_eq
  rcases le_total e exponent with below | above
  · obtain ⟨shift, rfl⟩ : ∃ shift : ℕ, e = exponent - shift :=
      ⟨(exponent - e).toNat, by omega⟩
    obtain rfl := eq_mul_pow_of_same same
    have target := normal.targetExponent_eq (m := mantissa * 2 ^ shift) (e := exponent - shift) (by
      rw [log2_mul_pow normal.pos.ne']
      omega)
    have amount : (exponent - shift - exponent).toNat = 0 := by omega
    simp only [UnpackedFloat.round, target, decreaseExponent, amount, Nat.shiftLeft_zero,
      Nat.cast_zero, sub_zero]
    exact roundWithAccuracy_eq normal sign same below
  · obtain ⟨shift, rfl⟩ : ∃ shift : ℕ, e = exponent + shift :=
      ⟨(e - exponent).toNat, by omega⟩
    have scaled : (mantissa : ℚ) * 2 ^ (exponent + shift - (shift : ℤ)) =
        m * 2 ^ (exponent + shift) := by
      rw [add_sub_cancel_right, same]
    obtain rfl := eq_mul_pow_of_same scaled
    have nonzero : m ≠ 0 := by
      rintro rfl
      simpa using normal.pos
    have target := normal.targetExponent_eq (m := m) (e := exponent + shift) (by
      rw [log2_mul_pow nonzero] at log
      omega)
    have amount : (exponent + shift - exponent).toNat = shift := by omega
    simp only [UnpackedFloat.round, target, decreaseExponent, amount, Nat.shiftLeft_eq,
      add_sub_cancel_right]
    exact roundWithAccuracy_eq normal sign rfl le_rfl

end Rounding

/-- A natural number of at most 53 bits, or the next one, has a normal form. -/
theorem exists_isNormal {n : ℕ} (positive : 0 < n) (small : n ≤ 2 ^ 53) :
    ∃ mantissa exponent, IsNormal mantissa exponent ∧ (mantissa : ℚ) * 2 ^ exponent = n := by
  rcases small.lt_or_eq with small | rfl
  · have bits : n.log2 < 53 := (Nat.log2_lt positive.ne').mpr small
    obtain ⟨shift, whole⟩ : ∃ shift : ℕ, n.log2 + shift = 52 := ⟨52 - n.log2, by omega⟩
    have log : (n * 2 ^ shift).log2 = 52 := by rw [log2_mul_pow positive.ne', whole]
    obtain ⟨lower, upper⟩ := (Nat.log2_eq_iff (by positivity)).mp log
    refine ⟨n * 2 ^ shift, -shift, ⟨lower, upper, by omega, by omega⟩, ?_⟩
    push_cast
    rw [zpow_neg, zpow_natCast]
    field_simp
  · exact ⟨2 ^ 52, 1, ⟨by norm_num, by norm_num, by norm_num, by norm_num⟩, by norm_num⟩

theorem toNat_one_append (fraction : BitVec 52) :
    (1#1 ++ fraction).toNat = 2 ^ 52 + fraction.toNat := by
  rw [BitVec.toNat_append, ← Nat.shiftLeft_add_eq_or_of_lt fraction.isLt]
  rfl

theorem pack_eq (normal : IsNormal mantissa exponent) (sign : Sign) (positive : 0 < mantissa)
    {field : ℕ} (biased : (field : ℤ) = exponent + 1075) :
    UnpackedFloat.pack .binary64 (.finite sign mantissa exponent positive) =
      packComponents .binary64 sign (BitVec.ofNat 11 field) (BitVec.ofNat 52 mantissa) := by
  have code : (exponent + Format.binary64.exponentBias + (52 : ℕ)).toNat = field := by
    simp only [Format.exponentBias]
    omega
  have fits : ¬ 2 ^ 11 ≤ field + 1 := by
    have := normal.greatest
    omega
  simp only [UnpackedFloat.pack, code, fits, normal.log2_eq, Format.mantissaBits, if_false,
    if_true]

/-- A normal double is packed without loss. -/
theorem unpack_pack_finite (normal : IsNormal mantissa exponent) (sign : Sign)
    (positive : 0 < mantissa) :
    (pack (.finite sign mantissa exponent positive)).unpack =
      .finite sign mantissa exponent positive := by
  obtain ⟨lower, upper, least, greatest⟩ := normal
  obtain ⟨field, biased⟩ : ∃ field : ℕ, (field : ℤ) = exponent + 1075 :=
    ⟨(exponent + 1075).toNat, by omega⟩
  have coded : (BitVec.ofNat 11 field).toNat = field := by
    rw [BitVec.toNat_ofNat]
    omega
  have inner : BitVec.ofNat 11 field ≠ -1#11 ∧ BitVec.ofNat 11 field ≠ 0#11 := by
    constructor <;> bv_omega
  have restored : (1#1 ++ BitVec.ofNat 52 mantissa).toNat = mantissa := by
    rw [toNat_one_append, BitVec.toNat_ofNat]
    omega
  have unbiased : (field : ℤ) - (Format.binary64.exponentBias + (52 : ℕ)) = exponent := by
    simp only [Format.exponentBias]
    omega
  change UnpackedFloat.unpack .binary64 (UnpackedFloat.pack .binary64 _) = _
  rw [pack_eq ⟨lower, upper, least, greatest⟩ sign positive biased]
  simp only [UnpackedFloat.unpack, unpackExponent_packComponents, unpackMantissa_packComponents,
    unpackSign_packComponents, Sign.ofBitVec_toBitVec, inner.1, inner.2, if_false, coded, restored,
    unbiased]

theorem unpack_pack_zero (sign : Sign) : (pack (.zero sign)).unpack = .zero sign := by
  cases sign <;> rfl

theorem subnormal_lt_one (upper : mantissa < 2 ^ 52) :
    (mantissa : ℚ) * 2 ^ (-1074 : ℤ) < 1 := by
  have below : (mantissa : ℚ) < 2 ^ (52 : ℤ) := by exact_mod_cast upper
  calc (mantissa : ℚ) * 2 ^ (-1074 : ℤ)
    _ < 2 ^ (52 : ℤ) * 2 ^ (-1074 : ℤ) := mul_lt_mul_of_pos_right below (by positivity)
    _ = 2 ^ (-1022 : ℤ) := by rw [← zpow_add₀ two_ne_zero]; rfl
    _ ≤ 1 := zpow_le_one_of_nonpos₀ one_le_two (by norm_num)

/-- A double of magnitude at least one is normal. -/
theorem isNormal_of_unpack {model : Float.Model} {sign : Sign} {positive : 0 < mantissa}
    (h : model.unpack = .finite sign mantissa exponent positive)
    (large : (1 : ℚ) ≤ mantissa * 2 ^ exponent) : IsNormal mantissa exponent := by
  have field : (@unpackExponent .binary64 model.toBits.toBitVec).toNat < 2 ^ 11 :=
    BitVec.isLt _
  have fraction : (@unpackMantissa .binary64 model.toBits.toBitVec).toNat < 2 ^ 52 :=
    BitVec.isLt _
  simp only [Float.Model.unpack, UnpackedFloat.unpack, Format.exponentBias] at h
  split at h
  · split at h <;> cases h
  · rename_i notTop
    split at h
    · split at h
      · cases h
      · rename_i bottom _
        cases h
        rw [bottom] at large
        exact absurd large (subnormal_lt_one fraction).not_ge
    · rename_i notBottom
      have inner : (@unpackExponent .binary64 model.toBits.toBitVec).toNat ≠ 2047 ∧
          (@unpackExponent .binary64 model.toBits.toBitVec).toNat ≠ 0 := by
        constructor <;> bv_omega
      cases h
      rw [toNat_one_append]
      exact ⟨by omega, by omega, by omega, by omega⟩

end Double

end DesignMatrix
