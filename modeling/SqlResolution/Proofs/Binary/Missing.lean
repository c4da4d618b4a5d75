import Mathlib
import SqlResolution.Binary.Layout

/-!
# Missing numbers

A word is a NaN where its exponent field is full and its fraction is not zero. So a conversion to
doubles makes a NaN of a NaN, and of nothing else.
-/
namespace SqlResolution.Binary

-- Powers are the core ones, also where another instance is in scope.
attribute [local instance (high)] instPowNat

open Float.Model (Format UnpackedFloat)
open Float.Model.UnpackedFloat

theorem isNaNBits_iff {spec : Format} (b : BitVec spec.numBits) :
    isNaNBits b = true ↔
      b.toNat / 2 ^ spec.mantissaBitsWithoutImplicit % 2 ^ spec.exponentBits =
        2 ^ spec.exponentBits - 1 ∧ b.toNat % 2 ^ spec.mantissaBitsWithoutImplicit ≠ 0 := by
  have hexponent : unpackExponent b = -1#_ ↔
      b.toNat / 2 ^ spec.mantissaBitsWithoutImplicit % 2 ^ spec.exponentBits =
        2 ^ spec.exponentBits - 1 := by
    rw [← BitVec.toNat_inj, unpackExponent_def, BitVec.extractLsb'_toNat,
      BitVec.neg_one_eq_allOnes, BitVec.toNat_allOnes, Nat.shiftRight_eq_div_pow]
  have hmantissa : unpackMantissa b = 0#_ ↔
      b.toNat % 2 ^ spec.mantissaBitsWithoutImplicit = 0 := by
    rw [← BitVec.toNat_inj, unpackMantissa_def, BitVec.extractLsb'_toNat, Nat.shiftRight_zero,
      BitVec.toNat_zero]
  rw [isNaNBits, decide_eq_true_eq, hexponent, Ne, hmantissa]

/-- A word is unpacked to a NaN where its bits are those of one. -/
theorem isNaN_unpack {spec : Format} (b : BitVec spec.numBits) :
    (unpack spec b).isNaN = isNaNBits b := by
  unfold unpack isNaNBits
  dsimp only
  split
  · rename_i hfull
    split
    · rename_i hzero
      simp [UnpackedFloat.isNaN, hzero]
    · rename_i hzero
      simp [UnpackedFloat.isNaN, hfull, hzero]
  · rename_i hfull
    split
    · split <;> simp [UnpackedFloat.isNaN, hfull]
    · simp [UnpackedFloat.isNaN, hfull]

/-- A word reads as NaN where its exponent field is full and its fraction is not zero. -/
theorem Layout.decode_eq_nan_iff (l : Layout) (word : Nat) :
    l.decode word = .nan ↔ word / 2 ^ l.fractionBits % 2 ^ l.exponentBits = l.specialExponent ∧
      word % 2 ^ l.fractionBits ≠ 0 := by
  unfold decode
  dsimp only
  split
  · rename_i hspecial
    split
    · rename_i hzero
      simp [eq_of_beq hzero]
    · rename_i hzero
      simpa [eq_of_beq hspecial] using hzero
  · rename_i hspecial
    have hne : word / 2 ^ l.fractionBits % 2 ^ l.exponentBits ≠ l.specialExponent := by
      simpa using hspecial
    split <;> simp [hne]

theorem isNaN_ofBits_iff (w : UInt64) :
    (Float.ofBits w).isNaN = true ↔ double.decode w.toNat = .nan := by
  have hread : @isNaNBits .binary64 w.toBitVec = true ↔ double.decode w.toNat = .nan := by
    rw [isNaNBits_iff, Layout.decode_eq_nan_iff]
    rfl
  rw [← hread]
  change (unpack .binary64 (pack .binary64 (unpack .binary64 w.toBitVec))).isNaN = true ↔ _
  rw [pack_unpack]
  split
  · rename_i hnan
    rw [unpack_packedNaN]
    exact iff_of_true rfl hnan
  · rw [isNaN_unpack]

theorem isNaN_double_iff (x : Float) : x.isNaN = true ↔ readDouble x = .nan := by
  rw [readDouble, ← isNaN_ofBits_iff, Float.ofBits_toBits]

theorem isNaN_single_iff (x : Float32) : x.isNaN = true ↔ readSingle x = .nan := by
  unfold readSingle
  rw [Layout.decode_eq_nan_iff]
  change (unpack .binary32 x.toBits.toBitVec).isNaN = true ↔ _
  rw [isNaN_unpack, isNaNBits_iff]
  rfl

/-- A word of at most that of infinity is no NaN, whatever its sign. -/
theorem decode_signed_ne_nan {magnitude : Nat}
    (h : magnitude ≤ double.specialExponent * 2 ^ double.fractionBits) (negative : Bool) :
    double.decode (UInt64.ofNat (double.signed negative magnitude)).toNat ≠ .nan := by
  rw [Ne, Layout.decode_eq_nan_iff, UInt64.toNat_ofNat']
  simp only [double, Layout.specialExponent, Layout.signed] at h ⊢
  cases negative <;> simp <;> omega

/-- A double is a NaN where it stands for what is none. -/
theorem isNaN_toDouble_iff (r : Reading) : (toDouble r).isNaN = true ↔ r = .nan := by
  unfold toDouble
  rw [isNaN_ofBits_iff]
  cases r with
  | nan => decide
  | infinite negative =>
    simp only [Layout.encode, Layout.infinity, reduceCtorEq, iff_false]
    exact decode_signed_ne_nan (Nat.le_refl _) negative
  | finite negative m q =>
    simp only [Layout.encode, reduceCtorEq, iff_false]
    refine decode_signed_ne_nan ?_ negative
    unfold Layout.nearest
    split
    · exact Nat.zero_le _
    · exact Nat.min_le_right _ _

theorem isNaN_doubleOfInt (n : Int) : (doubleOfInt n).isNaN = false := by
  rw [← Bool.not_eq_true, doubleOfInt, isNaN_toDouble_iff]
  exact Reading.noConfusion

theorem isNaN_widen (x : Float32) : (widen x).isNaN = x.isNaN := by
  rw [Bool.eq_iff_iff, widen, isNaN_toDouble_iff, isNaN_single_iff]

end SqlResolution.Binary
