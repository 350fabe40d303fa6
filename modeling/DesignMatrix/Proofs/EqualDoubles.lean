import DesignMatrix.Number.Double
import DesignMatrix.Proofs.ExactDoubles

/-!
# Equal doubles

Two doubles that are numbers are equal exactly if they stand for the same number, the infinities
included. Apart from the two zeros they are the same double then. As the zeros stand side by side
among all doubles, whatever ranks between two equal doubles is equal to both.
-/

namespace DesignMatrix

namespace Double

open Float.Model Float.Model.UnpackedFloat

/-- A rational number or an infinity. -/
inductive Extended where
  | negativeInfinity
  | rational (number : ℚ)
  | positiveInfinity
  deriving DecidableEq

/-- The number that an unpacked double stands for, which may be an infinity. -/
def extended? : UnpackedFloat → Option Extended
  | .infinity .negative => some .negativeInfinity
  | .infinity .positive => some .positiveInfinity
  | unpacked => (unpackedNumber? unpacked).map .rational

/-- The number that a double stands for, which may be an infinity. -/
def value? (x : Float) : Option Extended := extended? x.toModel.unpack

/-- The mantissa and the exponent of a double, which writes a number in one way only. -/
structure IsCanonical (mantissa : ℕ) (exponent : ℤ) : Prop where
  upper : mantissa < 2 ^ 53
  least : -1074 ≤ exponent
  full : exponent = -1074 ∨ 2 ^ 52 ≤ mantissa

variable {sign sign' : Sign} {mantissa mantissa' : ℕ} {exponent exponent' : ℤ}

theorem isCanonical_of_unpack {model : Float.Model} {positive : 0 < mantissa}
    (h : model.unpack = .finite sign mantissa exponent positive) :
    IsCanonical mantissa exponent := by
  have fraction : (@unpackMantissa .binary64 model.toBits.toBitVec).toNat < 2 ^ 52 :=
    BitVec.isLt _
  simp only [Float.Model.unpack, UnpackedFloat.unpack, Format.exponentBias] at h
  split at h
  · split at h <;> cases h
  · split at h
    · split at h
      · cases h
      · rename_i bottom _
        cases h
        rw [bottom]
        exact ⟨by omega, by decide, .inl rfl⟩
    · rename_i notBottom
      have field : (@unpackExponent .binary64 model.toBits.toBitVec).toNat ≠ 0 := by bv_omega
      cases h
      rw [toNat_one_append]
      exact ⟨by omega, by omega, .inr (by omega)⟩

/-- Of two ways to write a number the one with the larger exponent has the smaller mantissa, which
no canonical one can be. -/
theorem IsCanonical.exponent_le (h : IsCanonical mantissa exponent)
    (h' : IsCanonical mantissa' exponent')
    (same : (mantissa : ℚ) * 2 ^ exponent = mantissa' * 2 ^ exponent') :
    exponent' ≤ exponent := by
  by_contra above
  obtain ⟨shift, rfl⟩ : ∃ shift : ℕ, exponent = exponent' - shift :=
    ⟨(exponent' - exponent).toNat, by omega⟩
  obtain ⟨less, rfl⟩ : ∃ less, shift = less + 1 := ⟨shift - 1, by omega⟩
  have scaled := eq_mul_pow_of_same same
  have upper := h.upper
  have twice : 2 ≤ 2 ^ (less + 1) := Nat.le_self_pow (by omega) 2
  have full : 2 ^ 52 ≤ mantissa' := by
    have := h.least
    exact h'.full.resolve_left (by omega)
  have large : 2 ^ 52 * 2 ≤ mantissa' * 2 ^ (less + 1) := Nat.mul_le_mul full twice
  omega

theorem IsCanonical.eq_of_same (h : IsCanonical mantissa exponent)
    (h' : IsCanonical mantissa' exponent')
    (same : (mantissa : ℚ) * 2 ^ exponent = mantissa' * 2 ^ exponent') :
    mantissa = mantissa' ∧ exponent = exponent' := by
  obtain rfl : exponent = exponent' :=
    le_antisymm (h'.exponent_le h same.symm) (h.exponent_le h' same)
  have nonzero : (2 : ℚ) ^ exponent ≠ 0 := zpow_ne_zero _ two_ne_zero
  exact ⟨by exact_mod_cast mul_right_cancel₀ nonzero same, rfl⟩

theorem signed_ne_zero (positive : 0 < mantissa) :
    (sign.apply mantissa : ℚ) * 2 ^ exponent ≠ 0 := by
  rw [← abs_ne_zero, abs_apply_mul]
  positivity

/-- A number with a sign determines its sign and its magnitude. -/
theorem signed_inj (positive : 0 < mantissa)
    (same : (sign.apply mantissa : ℚ) * 2 ^ exponent = sign'.apply mantissa' * 2 ^ exponent') :
    sign = sign' ∧ (mantissa : ℚ) * 2 ^ exponent = mantissa' * 2 ^ exponent' := by
  have magnitudes : (mantissa : ℚ) * 2 ^ exponent = mantissa' * 2 ^ exponent' := by
    rw [← abs_apply_mul sign, same, abs_apply_mul]
  have large : (0 : ℚ) < mantissa * 2 ^ exponent := by positivity
  refine ⟨?_, magnitudes⟩
  cases sign <;> cases sign' <;> simp only [Sign.apply, Int.cast_neg, Int.cast_natCast] at same
  · rfl
  · linarith
  · linarith
  · rfl

variable {u v : UnpackedFloat}

/-- Every finite double is written in the canonical way. -/
def Canonical (u : UnpackedFloat) : Prop :=
  ∀ sign mantissa exponent positive, u = .finite sign mantissa exponent positive →
    IsCanonical mantissa exponent

theorem beq_iff_extended?_eq (hu : u ≠ .notANumber) (hv : v ≠ .notANumber) (cu : Canonical u)
    (cv : Canonical v) : u.beq v = true ↔ extended? u = extended? v := by
  rw [beq_iff_ne_notANumber_and_eq]
  cases u with
  | notANumber => exact absurd rfl hu
  | infinity s =>
    cases v with
    | notANumber => exact absurd rfl hv
    | infinity t => cases s <;> cases t <;> simp [extended?]
    | _ => cases s <;> simp [extended?, unpackedNumber?]
  | zero s =>
    cases v with
    | notANumber => exact absurd rfl hv
    | infinity t => cases t <;> simp [extended?, unpackedNumber?]
    | zero t => cases s <;> cases t <;> simp [extended?, unpackedNumber?]
    | finite t m e positive =>
      simp only [extended?, unpackedNumber?, Option.map_some, Option.some.injEq,
        Extended.rational.injEq, (signed_ne_zero positive).symm]
      simp
  | finite s m e positive =>
    cases v with
    | notANumber => exact absurd rfl hv
    | infinity t => cases t <;> simp [extended?, unpackedNumber?]
    | zero t =>
      simp only [extended?, unpackedNumber?, Option.map_some, Option.some.injEq,
        Extended.rational.injEq, signed_ne_zero positive]
      simp
    | finite t m' e' positive' =>
      simp only [extended?, unpackedNumber?, Option.map_some, Option.some.injEq,
        Extended.rational.injEq]
      constructor
      · rintro ⟨-, -, same | ⟨zero, -⟩ | ⟨zero, -⟩⟩
        · cases same
          rfl
        · cases zero
        · cases zero
      · intro same
        obtain ⟨rfl, magnitudes⟩ := signed_inj positive same
        obtain ⟨rfl, rfl⟩ := (cu _ _ _ _ rfl).eq_of_same (cv _ _ _ _ rfl) magnitudes
        exact ⟨hu, hv, .inl rfl⟩

/-- Doubles that are numbers are equal if they stand for the same number. -/
theorem beq_iff_value?_eq {x y : Float} (hx : x.isNaN = false) (hy : y.isNaN = false) :
    (x == y) = true ↔ value? x = value? y := by
  have number {z : Float} (hz : z.isNaN = false) : z.toModel.unpack ≠ .notANumber := by
    intro same
    have : z.isNaN = z.toModel.unpack.isNaN := rfl
    rw [this, same] at hz
    cases hz
  exact beq_iff_extended?_eq (number hx) (number hy) (fun _ _ _ _ => isCanonical_of_unpack)
    fun _ _ _ _ => isCanonical_of_unpack

end Double

open Double

theorem rank_injective {x y : Float} (same : rank x = rank y) : x = y := by
  have bits : x.toBits.toNat = y.toBits.toNat := by
    have hx := x.toBits.toNat_lt
    have hy := y.toBits.toNat_lt
    simp only [rank] at same
    split at same <;> split at same <;> omega
  exact Float.toBits_inj.mp (UInt64.toNat_inj.mp bits)

theorem rank_zero : rank 0 = 0 := by decide

theorem rank_neg_zero : rank (-0) = -1 := by decide

/-- What ranks between two equal doubles is equal to both. -/
theorem beq_of_rank_between {x y z : Float} (lower : rank x ≤ rank y) (upper : rank y ≤ rank z)
    (same : (x == z) = true) : (x == y) = true := by
  obtain ⟨number, -, rfl | ⟨rfl, rfl⟩ | ⟨rfl, rfl⟩⟩ := Float.beq_iff_ne_nan_and_eq.mp same
  · rw [rank_injective (le_antisymm lower upper)] at number ⊢
    exact Float.beq_self_iff.mpr number
  · rw [rank_zero] at lower
    rw [rank_neg_zero] at upper
    omega
  · rw [rank_neg_zero] at lower
    rw [rank_zero] at upper
    obtain first | second : rank y = -1 ∨ rank y = 0 := by omega
    · rw [rank_injective (first.trans rank_neg_zero.symm)]
      decide
    · rw [rank_injective (second.trans rank_zero.symm)]
      decide

end DesignMatrix
