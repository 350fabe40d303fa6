import DesignMatrix.Proofs.ExactDoubles

/-!
# Sums of floating-point numbers

A sum does not depend on the order of its two parts, and a difference is the sum with the opposite
of what is subtracted. Both hold to the last bit, with signed zeros and infinities, in both formats.
-/

namespace DesignMatrix.FloatSums

open Float.Model Float.Model.UnpackedFloat

section Unpacked

variable {spec : Format}

theorem unpacked_add_comm (x y : UnpackedFloat) :
    UnpackedFloat.add spec x y = UnpackedFloat.add spec y x := by
  cases x with
  | notANumber => cases y <;> rfl
  | infinity s =>
    cases y with
    | infinity t => cases s <;> cases t <;> rfl
    | _ => rfl
  | zero s =>
    cases y with
    | zero t => cases s <;> cases t <;> rfl
    | _ => rfl
  | finite s m e =>
    cases y with
    | finite t n f => simp only [UnpackedFloat.add, min_comm f e, Int.add_comm (t.apply _)]
    | _ => rfl

theorem unpacked_sub_eq (x y : UnpackedFloat) :
    UnpackedFloat.sub spec x y = UnpackedFloat.add spec x y.neg := by
  cases x with
  | notANumber => cases y <;> rfl
  | infinity s => cases y <;> rfl
  | zero s => cases y <;> rfl
  | finite s m e =>
    cases y with
    | finite t n f =>
      simp only [UnpackedFloat.sub, UnpackedFloat.add, UnpackedFloat.neg, Double.apply_neg,
        Int.sub_eq_add_neg]
    | _ => rfl

/-- An unpacked number is packed without loss. -/
theorem unpack_pack_unpack (wide : 2 ≤ spec.exponentBits) (bits : BitVec spec.numBits) :
    unpack spec ((unpack spec bits).pack spec) = unpack spec bits := by
  rw [pack_unpack bits wide]
  split
  · rename_i isNaN
    simp only [isNaNBits, decide_eq_true_eq] at isNaN
    rw [unpack_packedNaN]
    simp [UnpackedFloat.unpack, isNaN]
  · rfl

/-- The opposite of an unpacked number comes from the same bits but for the sign. -/
theorem neg_unpack (bits : BitVec spec.numBits) :
    (unpack spec bits).neg = unpack spec (packComponents spec
      (-Sign.ofBitVec (unpackSign bits)) (unpackExponent bits) (unpackMantissa bits)) := by
  simp only [UnpackedFloat.unpack, unpackSign_packComponents, unpackExponent_packComponents,
    unpackMantissa_packComponents, Sign.ofBitVec_toBitVec]
  split
  · split <;> rfl
  · split
    · split <;> rfl
    · rfl

theorem unpack_pack_neg (wide : 2 ≤ spec.exponentBits) (bits : BitVec spec.numBits) :
    unpack spec ((unpack spec bits).neg.pack spec) = (unpack spec bits).neg := by
  rw [neg_unpack, unpack_pack_unpack wide]

theorem beq_zero_neg (x : UnpackedFloat) (sign : Sign) :
    x.neg.beq (.zero sign) = x.beq (.zero sign) := by
  cases x with
  | notANumber | zero => rfl
  | infinity s | finite s => cases s <;> rfl

end Unpacked

/-- A type of numbers in which a difference is a sum, and a number is zero if its opposite is. -/
structure SubtractsByAdding (α : Type) [Add α] [Sub α] [Neg α] [BEq α] [OfNat α 0] : Prop where
  add_comm (x y : α) : x + y = y + x
  sub_eq (x y : α) : x - y = x + -y
  neg_beq_zero (x : α) : (-x == 0) = (x == 0)

theorem unpack_neg_double (x : Float) : (-x).toModel.unpack = x.toModel.unpack.neg :=
  unpack_pack_neg (by decide) _

theorem unpack_neg_single (x : Float32) : (-x).toModel.unpack = x.toModel.unpack.neg :=
  unpack_pack_neg (by decide) _

theorem subtractsByAdding_double : SubtractsByAdding Float where
  add_comm _ _ := congrArg (fun sum => Float.ofModel (.pack sum)) (unpacked_add_comm _ _)
  sub_eq x y := by
    change Float.ofModel (.pack (UnpackedFloat.sub .binary64 _ y.toModel.unpack)) =
      Float.ofModel (.pack (UnpackedFloat.add .binary64 _ (-y).toModel.unpack))
    rw [unpacked_sub_eq, unpack_neg_double]
  neg_beq_zero x := by
    change (-x).toModel.unpack.beq (.zero .positive) = x.toModel.unpack.beq (.zero .positive)
    rw [unpack_neg_double, beq_zero_neg]

theorem subtractsByAdding_single : SubtractsByAdding Float32 where
  add_comm _ _ := congrArg (fun sum => Float32.ofModel (.pack sum)) (unpacked_add_comm _ _)
  sub_eq x y := by
    change Float32.ofModel (.pack (UnpackedFloat.sub .binary32 _ y.toModel.unpack)) =
      Float32.ofModel (.pack (UnpackedFloat.add .binary32 _ (-y).toModel.unpack))
    rw [unpacked_sub_eq, unpack_neg_single]
  neg_beq_zero x := by
    change (-x).toModel.unpack.beq (.zero .positive) = x.toModel.unpack.beq (.zero .positive)
    rw [unpack_neg_single, beq_zero_neg]

end DesignMatrix.FloatSums
