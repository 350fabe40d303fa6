import DesignMatrix.Proofs.NormalDoubles

/-!
# Integers as doubles

Sums, differences and products of doubles that stand for integers are exact, as long as they are
integers of magnitude at most `2 ^ 53` themselves. Every such integer has a normal form, so that
rounding leaves it as it is.
-/

namespace DesignMatrix

namespace Double

open Float.Model Float.Model.UnpackedFloat

section Signs

theorem apply_neg (sign : Sign) (n : ℤ) : (-sign).apply n = -sign.apply n := by
  cases sign with
  | negative => exact (neg_neg n).symm
  | positive => rfl

theorem apply_mul (s t : Sign) (m n : ℤ) : (s * t).apply (m * n) = s.apply m * t.apply n := by
  cases s <;> cases t
  · exact (neg_mul_neg m n).symm
  · exact (neg_mul m n).symm
  · exact (mul_neg m n).symm
  · rfl

theorem apply_eq_mul (sign : Sign) (n : ℤ) : sign.apply n = sign.apply 1 * n := by
  cases sign <;> simp [Sign.apply]

theorem abs_apply_mul (sign : Sign) (mantissa : ℕ) (exponent : ℤ) :
    |(sign.apply mantissa : ℚ) * 2 ^ exponent| = mantissa * 2 ^ exponent := by
  rw [abs_mul, abs_of_pos (by positivity : (0 : ℚ) < 2 ^ exponent)]
  cases sign <;> simp [Sign.apply]

theorem decreaseExponent_value {target e : ℤ} (below : target ≤ e) (sign : Sign) (m : ℕ) :
    (sign.apply (decreaseExponent m e target).1 : ℚ) * 2 ^ target = sign.apply m * 2 ^ e := by
  obtain ⟨shift, rfl⟩ : ∃ shift : ℕ, e = target + shift := ⟨(e - target).toNat, by omega⟩
  have amount : (target + shift - target).toNat = shift := by omega
  rw [apply_eq_mul, apply_eq_mul sign m]
  simp only [decreaseExponent, amount, Nat.shiftLeft_eq]
  rw [zpow_add₀ two_ne_zero, zpow_natCast]
  push_cast
  ring

end Signs

/-- The unpacked double stands for the integer and keeps doing so when it is packed. -/
inductive IsExactly : UnpackedFloat → ℤ → Prop
  | zero (sign : Sign) : IsExactly (.zero sign) 0
  | finite {sign : Sign} {mantissa : ℕ} {exponent n : ℤ} (normal : IsNormal mantissa exponent)
      (same : (sign.apply mantissa : ℚ) * 2 ^ exponent = n) :
      IsExactly (.finite sign mantissa exponent normal.pos) n

theorem number?_pack {u : UnpackedFloat} {n : ℤ} (h : IsExactly u n) :
    unpackedNumber? (pack u).unpack = some (n : ℚ) := by
  cases h with
  | zero sign => simp [unpack_pack_zero, unpackedNumber?]
  | finite normal same => simp [unpack_pack_finite normal, unpackedNumber?, same]

theorem ne_zero_of_same {sign : Sign} {mantissa : ℕ} {exponent n : ℤ} (positive : 0 < mantissa)
    (same : (sign.apply mantissa : ℚ) * 2 ^ exponent = n) : n ≠ 0 := by
  rintro rfl
  have magnitude := abs_apply_mul sign mantissa exponent
  rw [same, Int.cast_zero, abs_zero] at magnitude
  have : (0 : ℚ) < mantissa * 2 ^ exponent := by positivity
  exact this.ne magnitude

theorem isExactly_unpack {x : Float} {n : ℤ} (h : number? x = some (n : ℚ)) :
    IsExactly x.toModel.unpack n := by
  unfold number? at h
  cases unpacked : x.toModel.unpack with
  | infinity sign => simp [unpacked, unpackedNumber?] at h
  | notANumber => simp [unpacked, unpackedNumber?] at h
  | zero sign =>
    obtain rfl : n = 0 := by simpa [unpacked, unpackedNumber?, eq_comm] using h
    exact .zero sign
  | finite sign mantissa exponent positive =>
    have same : (sign.apply mantissa : ℚ) * 2 ^ exponent = n := by
      simpa [unpacked, unpackedNumber?] using h
    have large : (1 : ℚ) ≤ mantissa * 2 ^ exponent := by
      rw [← abs_apply_mul sign, same]
      exact_mod_cast Int.one_le_abs (ne_zero_of_same positive same)
    exact .finite (isNormal_of_unpack unpacked large) same

variable {u v : UnpackedFloat} {a b : ℤ}

/-- An integer of at most 53 bits, or the next one, has a normal form, however it is written. -/
theorem exists_isExactly {sign : Sign} {mantissa : ℕ} {exponent : ℤ}
    (same : (sign.apply mantissa : ℚ) * 2 ^ exponent = a) (nonzero : a ≠ 0)
    (small : |a| ≤ 2 ^ 53) :
    ∃ m e, ∃ normal : IsNormal m e, (mantissa : ℚ) * 2 ^ exponent = m * 2 ^ e ∧
      IsExactly (.finite sign m e normal.pos) a := by
  have positive : 0 < a.natAbs := Int.natAbs_pos.mpr nonzero
  have bounded : a.natAbs ≤ 2 ^ 53 := by
    rw [Int.abs_eq_natAbs] at small
    exact_mod_cast small
  obtain ⟨m, e, normal, value⟩ := exists_isNormal positive bounded
  have rewritten : (mantissa : ℚ) * 2 ^ exponent = m * 2 ^ e := by
    rw [value, ← abs_apply_mul sign, same, Nat.cast_natAbs, Int.cast_abs]
  refine ⟨m, e, normal, rewritten, .finite normal ?_⟩
  rw [← same, apply_eq_mul sign m, apply_eq_mul sign mantissa]
  push_cast
  rw [mul_assoc, mul_assoc, rewritten]

theorem isExactly_round {sign : Sign} {mantissa : ℕ} {exponent : ℤ}
    (same : (sign.apply mantissa : ℚ) * 2 ^ exponent = a) (nonzero : a ≠ 0)
    (small : |a| ≤ 2 ^ 53) :
    IsExactly (UnpackedFloat.round .binary64 sign mantissa exponent) a := by
  obtain ⟨m, e, normal, rewritten, exact⟩ := exists_isExactly same nonzero small
  rwa [round_eq normal sign rewritten]

theorem isExactly_normalize {mantissa exponent : ℤ} (same : (mantissa : ℚ) * 2 ^ exponent = a)
    (small : |a| ≤ 2 ^ 53) (zeroSign : Sign) :
    IsExactly (UnpackedFloat.normalize .binary64 mantissa exponent zeroSign) a := by
  have nonzero (h : mantissa ≠ 0) : a ≠ 0 := by
    rintro rfl
    simp [h, zpow_ne_zero] at same
  rcases lt_trichotomy mantissa 0 with negative | rfl | positive
  · replace nonzero := nonzero negative.ne
    obtain ⟨m, rfl⟩ : ∃ m : ℕ, mantissa = -m := ⟨(-mantissa).toNat, by omega⟩
    have magnitude : (-(-(m : ℤ))).toNat = m := by omega
    simp only [UnpackedFloat.normalize, compare_lt_iff_lt.mpr negative, magnitude]
    exact isExactly_round same nonzero small
  · obtain rfl : a = 0 := by simpa [eq_comm] using same
    exact .zero zeroSign
  · replace nonzero := nonzero positive.ne'
    obtain ⟨m, rfl⟩ : ∃ m : ℕ, mantissa = m := ⟨mantissa.toNat, by omega⟩
    simp only [UnpackedFloat.normalize, compare_gt_iff_gt.mpr positive, Int.toNat_natCast]
    exact isExactly_round same nonzero small

namespace IsExactly

theorem neg (h : IsExactly u a) : IsExactly u.neg (-a) := by
  cases h with
  | zero sign => exact .zero (-sign)
  | finite normal same =>
    refine .finite normal ?_
    rw [apply_neg]
    push_cast
    rw [neg_mul, same]

theorem add (hu : IsExactly u a) (hv : IsExactly v b) (small : |a + b| ≤ 2 ^ 53) :
    IsExactly (UnpackedFloat.add .binary64 u v) (a + b) := by
  cases hu with
  | zero s =>
    rw [zero_add] at small ⊢
    cases hv with
    | zero t => cases s <;> cases t <;> exact .zero _
    | finite normal same => exact .finite normal same
  | @finite s m e _ normal same =>
    cases hv with
    | zero t =>
      rw [add_zero]
      exact .finite normal same
    | @finite t m' e' _ normal' same' =>
      have aligned : ((s.apply (decreaseExponent m e (min e e')).1 +
          t.apply (decreaseExponent m' e' (min e e')).1 : ℤ) : ℚ) * 2 ^ min e e' = (a + b : ℤ) := by
        rw [Int.cast_add, add_mul, decreaseExponent_value (min_le_left e e'),
          decreaseExponent_value (min_le_right e e'), same, same', Int.cast_add]
      exact isExactly_normalize aligned small .positive

theorem sub (hu : IsExactly u a) (hv : IsExactly v b) (small : |a - b| ≤ 2 ^ 53) :
    IsExactly (UnpackedFloat.sub .binary64 u v) (a - b) := by
  have negated : UnpackedFloat.sub .binary64 u v = UnpackedFloat.add .binary64 u v.neg := by
    cases hu <;> cases hv
    · rfl
    · rfl
    · rfl
    · simp only [UnpackedFloat.sub, UnpackedFloat.neg, UnpackedFloat.add, apply_neg, sub_eq_add_neg]
  rw [negated, sub_eq_add_neg]
  rw [sub_eq_add_neg] at small
  exact hu.add hv.neg small

theorem mul (hu : IsExactly u a) (hv : IsExactly v b) (small : |a * b| ≤ 2 ^ 53) :
    IsExactly (UnpackedFloat.mul .binary64 u v) (a * b) := by
  cases hu with
  | zero s =>
    rw [zero_mul]
    cases hv <;> exact .zero _
  | @finite s m e _ normal same =>
    cases hv with
    | zero t =>
      rw [mul_zero]
      exact .zero _
    | @finite t m' e' _ normal' same' =>
      have product : ((s * t).apply (m * m' : ℕ) : ℚ) * 2 ^ (e + e') = (a * b : ℤ) := by
        push_cast
        rw [apply_mul, ← same, ← same', zpow_add₀ two_ne_zero]
        push_cast
        ring
      have nonzero : a * b ≠ 0 :=
        mul_ne_zero (ne_zero_of_same normal.pos same) (ne_zero_of_same normal'.pos same')
      obtain ⟨p, q, result, rewritten, exact⟩ := exists_isExactly product nonzero small
      have below : e + e' ≤ q := by
        by_contra above
        obtain ⟨shift, rfl⟩ : ∃ shift : ℕ, q = e + e' - shift := ⟨(e + e' - q).toNat, by omega⟩
        have large : 2 ^ 52 * 2 ^ 52 ≤ m * m' := Nat.mul_le_mul normal.lower normal'.lower
        have more : m * m' ≤ m * m' * 2 ^ shift := Nat.le_mul_of_pos_right _ (by positivity)
        have upper := result.upper
        rw [eq_mul_pow_of_same rewritten.symm] at upper
        omega
      have rounds := roundWithAccuracy_eq result (s * t) rewritten below
      simp only [UnpackedFloat.mul]
      rwa [rounds]

end IsExactly

section Arithmetic

variable {x y : Float} {a b : ℤ}

theorem number?_neg (hx : number? x = some (a : ℚ)) : number? (-x) = some ((-a : ℤ) : ℚ) :=
  number?_pack (isExactly_unpack hx).neg

theorem number?_add (hx : number? x = some (a : ℚ)) (hy : number? y = some (b : ℚ))
    (small : |a + b| ≤ 2 ^ 53) : number? (x + y) = some ((a + b : ℤ) : ℚ) :=
  number?_pack ((isExactly_unpack hx).add (isExactly_unpack hy) small)

theorem number?_sub (hx : number? x = some (a : ℚ)) (hy : number? y = some (b : ℚ))
    (small : |a - b| ≤ 2 ^ 53) : number? (x - y) = some ((a - b : ℤ) : ℚ) :=
  number?_pack ((isExactly_unpack hx).sub (isExactly_unpack hy) small)

theorem number?_mul (hx : number? x = some (a : ℚ)) (hy : number? y = some (b : ℚ))
    (small : |a * b| ≤ 2 ^ 53) : number? (x * y) = some ((a * b : ℤ) : ℚ) :=
  number?_pack ((isExactly_unpack hx).mul (isExactly_unpack hy) small)

theorem number?_ofNat {n : ℕ} (small : |(n : ℤ)| ≤ 2 ^ 53) :
    number? ⟨.ofNat n⟩ = some ((n : ℤ) : ℚ) := by
  have same : ((n : ℤ) : ℚ) * 2 ^ (0 : ℤ) = (n : ℤ) := by simp
  exact number?_pack (isExactly_normalize same small .positive)

/-- Only zeros are equal to zero. -/
theorem eq_zero_of_beq_zero (hx : number? x = some (a : ℚ)) (zero : (x == 0) = true) : a = 0 := by
  have unpacked : (0 : Float).toModel.unpack = .zero .positive := rfl
  have compared : UnpackedFloat.beq x.toModel.unpack (.zero .positive) = true := unpacked ▸ zero
  have exact := isExactly_unpack hx
  generalize x.toModel.unpack = u at compared exact
  cases exact with
  | zero sign => rfl
  | @finite sign _ _ _ normal same => cases sign <;> cases compared

end Arithmetic

end Double

end DesignMatrix
