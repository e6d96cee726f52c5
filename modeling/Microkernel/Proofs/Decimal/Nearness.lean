import Mathlib
import Microkernel.Decimal.Single

/-!
# Nearness is symmetric

Two numbers are near if their rounded difference lies strictly between two opposite bounds.  Taking
the difference the other way round reverses its sign and nothing else, rounding included, except
that a difference of zero may be positive both ways; and a comparison turns around when both of its
sides are reversed.  All of this is about numbers taken apart into sign, mantissa and exponent; that
packing one into its bits respects the sign carries it over to single precision.
-/

namespace Microkernel

open Float.Model

namespace Nearness

private theorem neg_neg_sign (sign : UnpackedFloat.Sign) : - -sign = sign := by
  cases sign with
  | negative => rfl
  | positive => rfl

private theorem neg_neg_unpacked (x : UnpackedFloat) : x.neg.neg = x := by
  cases x with
  | notANumber => rfl
  | infinity sign => simp [UnpackedFloat.neg, neg_neg_sign]
  | zero sign => simp [UnpackedFloat.neg, neg_neg_sign]
  | finite sign mantissa exponent positive => simp [UnpackedFloat.neg, neg_neg_sign]

private theorem round_neg (format : Format) (mantissa : Nat) (exponent : Int) :
    UnpackedFloat.round format .negative mantissa exponent =
      (UnpackedFloat.round format .positive mantissa exponent).neg := by
  simp only [UnpackedFloat.round, UnpackedFloat.roundWithAccuracy]
  split
  · rfl
  · rfl

/-- One number is the other with the opposite sign, or both are the positive zero. -/
def Opposite (x y : UnpackedFloat) : Prop :=
  y = x.neg ∨ x = .zero .positive ∧ y = .zero .positive

private theorem normalize_opposite (format : Format) (mantissa exponent : Int) :
    Opposite (UnpackedFloat.normalize format mantissa exponent .positive)
      (UnpackedFloat.normalize format (-mantissa) exponent .positive) := by
  rcases Int.lt_trichotomy mantissa 0 with negative | zero | positive
  · have here : compare mantissa 0 = .lt := Int.compare_eq_lt.mpr negative
    have there : compare (-mantissa) 0 = .gt := Int.compare_eq_gt.mpr (by omega)
    simp only [UnpackedFloat.normalize, here, there]
    rw [round_neg]
    exact Or.inl (neg_neg_unpacked _).symm
  · -- Zero takes the sign that was asked for, the positive one both times.
    subst zero
    exact Or.inr ⟨rfl, rfl⟩
  · have here : compare mantissa 0 = .gt := Int.compare_eq_gt.mpr positive
    have there : compare (-mantissa) 0 = .lt := Int.compare_eq_lt.mpr (by omega)
    simp only [UnpackedFloat.normalize, here, there]
    rw [round_neg, Int.neg_neg]
    exact Or.inl rfl

/-- The difference the other way round has the opposite sign. -/
theorem sub_opposite (format : Format) (x y : UnpackedFloat) :
    Opposite (UnpackedFloat.sub format x y) (UnpackedFloat.sub format y x) := by
  cases x with
  | notANumber =>
      cases y with
      | _ => exact Or.inl rfl
  | infinity sign =>
      cases y with
      | infinity other =>
          cases sign with
          | negative => cases other <;> exact Or.inl rfl
          | positive => cases other <;> exact Or.inl rfl
      | _ => exact Or.inl rfl
  | zero sign =>
      cases y with
      | notANumber => exact Or.inl rfl
      | infinity other => exact Or.inl (congrArg _ (neg_neg_sign other).symm)
      | zero other =>
          cases sign with
          | negative =>
              cases other with
              | negative => exact Or.inr ⟨rfl, rfl⟩
              | positive => exact Or.inl rfl
          | positive =>
              cases other with
              | negative => exact Or.inl rfl
              | positive => exact Or.inr ⟨rfl, rfl⟩
      | finite other mantissa exponent positive =>
          simp [UnpackedFloat.sub, UnpackedFloat.neg, neg_neg_sign, Opposite]
  | finite sign mantissa exponent positive =>
      cases y with
      | finite other mantissa' exponent' positive' =>
          simp only [UnpackedFloat.sub, Int.min_comm exponent' exponent]
          rw [← Int.neg_sub (sign.apply _) (other.apply _)]
          exact normalize_opposite _ _ _
      | notANumber => exact Or.inl rfl
      | infinity other => exact Or.inl (congrArg _ (neg_neg_sign other).symm)
      | zero other => exact Or.inl rfl

private theorem compare_neg (x y : UnpackedFloat) : x.neg.compare y = y.neg.compare x := by
  cases x with
  | notANumber => cases y <;> rfl
  | infinity sign =>
      cases y with
      | notANumber => cases sign <;> rfl
      | infinity other => cases sign <;> cases other <;> rfl
      | zero other => cases sign <;> rfl
      | finite other mantissa exponent positive => cases sign <;> cases other <;> rfl
  | zero sign =>
      cases y with
      | notANumber => rfl
      | infinity other => cases other <;> rfl
      | zero other => rfl
      | finite other mantissa exponent positive => cases other <;> rfl
  | finite sign mantissa exponent positive =>
      cases y with
      | notANumber => cases sign <;> rfl
      | infinity other => cases sign <;> cases other <;> rfl
      | zero other => cases sign <;> rfl
      | finite other mantissa' exponent' positive' =>
          have turned : ((compare exponent' exponent).then (compare mantissa' mantissa)).swap =
              (compare exponent exponent').then (compare mantissa mantissa') := by
            rw [Ordering.swap_then, Int.compare_swap, Nat.compare_swap]
          have turned' : ((compare exponent exponent').then (compare mantissa mantissa')).swap =
              (compare exponent' exponent).then (compare mantissa' mantissa) := by
            rw [← turned, Ordering.swap_swap]
          cases sign with
          | negative =>
              cases other with
              | negative => rfl
              | positive => exact congrArg some turned.symm
          | positive =>
              cases other with
              | negative => exact congrArg some turned'
              | positive => rfl

/-- The sign of packed components comes back, and nothing else depends on it. -/
theorem unpack_packComponents_neg (format : Format) (sign : UnpackedFloat.Sign)
    (exponent : BitVec format.exponentBits) (mantissa : BitVec format.mantissaBitsWithoutImplicit) :
    UnpackedFloat.unpack format (UnpackedFloat.packComponents format (-sign) exponent mantissa) =
      (UnpackedFloat.unpack format
        (UnpackedFloat.packComponents format sign exponent mantissa)).neg := by
  simp only [UnpackedFloat.unpack, UnpackedFloat.unpackMantissa_packComponents,
    UnpackedFloat.unpackExponent_packComponents, UnpackedFloat.unpackSign_packComponents,
    UnpackedFloat.Sign.ofBitVec_toBitVec]
  split
  · split
    · rfl
    · rfl
  · split
    · split
      · rfl
      · rfl
    · rfl

private theorem unpack_pack_neg (x : UnpackedFloat) :
    UnpackedFloat.unpack .binary32 (UnpackedFloat.pack .binary32 x.neg) =
      (UnpackedFloat.unpack .binary32 (UnpackedFloat.pack .binary32 x)).neg := by
  cases x with
  | notANumber => rfl
  | infinity sign => exact unpack_packComponents_neg .binary32 sign _ _
  | zero sign => exact unpack_packComponents_neg .binary32 sign _ _
  | finite sign mantissa exponent positive =>
      simp only [UnpackedFloat.neg, UnpackedFloat.pack]
      split
      · exact unpack_packComponents_neg .binary32 sign _ _
      · split
        · exact unpack_packComponents_neg .binary32 sign _ _
        · exact unpack_packComponents_neg .binary32 sign _ _

/-- A number taken apart. -/
def parts (x : Float32) : UnpackedFloat :=
  x.toModel.unpack

private theorem lt_iff_compare (x y : Float32) :
    x < y ↔ (parts x).compare (parts y) = some .lt := by
  change decide (x.toModel < y.toModel) = true ↔ _
  rw [decide_eq_true_iff]
  change ((parts x).compare (parts y) == some .lt) = true ↔ _
  exact beq_iff_eq

private theorem parts_sub (x y : Float32) :
    parts (x - y) = UnpackedFloat.unpack .binary32
      (UnpackedFloat.pack .binary32 (UnpackedFloat.sub .binary32 (parts x) (parts y))) :=
  rfl

/-- A difference taken the other way round has the opposite sign, or is zero both ways. -/
theorem parts_sub_comm (x y : Float32) :
    parts (y - x) = (parts (x - y)).neg ∨ parts (y - x) = parts (x - y) := by
  rw [parts_sub, parts_sub]
  rcases sub_opposite .binary32 (parts x) (parts y) with reversed | ⟨zero, zero'⟩
  · rw [reversed]
    exact Or.inl (unpack_pack_neg _)
  · rw [zero, zero']
    exact Or.inr rfl

private theorem parts_neg_epsilon :
    parts (-Single.epsilon.toFloat32) = (parts Single.epsilon.toFloat32).neg :=
  rfl

end Nearness

namespace Single

open Nearness

private theorem near_iff (a b : Single) :
    a.near b = true ↔
      (parts (a.toFloat32 - b.toFloat32)).compare (parts epsilon.toFloat32) = some .lt ∧
        (parts epsilon.toFloat32).neg.compare (parts (a.toFloat32 - b.toFloat32)) = some .lt := by
  rw [← parts_neg_epsilon, ← lt_iff_compare, ← lt_iff_compare]
  simp [near]

theorem near_comm (a b : Single) : a.near b = b.near a := by
  rw [Bool.eq_iff_iff, near_iff, near_iff]
  rcases parts_sub_comm a.toFloat32 b.toFloat32 with reversed | same
  · have below := compare_neg (parts (a.toFloat32 - b.toFloat32)) (parts epsilon.toFloat32)
    have above := compare_neg (parts epsilon.toFloat32) (parts (a.toFloat32 - b.toFloat32)).neg
    rw [neg_neg_unpacked] at above
    rw [reversed, below, above]
    exact and_comm
  · rw [same]

end Single

end Microkernel
