import Mathlib
import SqlResolution.Binary.Layout

/-!
# The numbers that words denote

A finite word denotes a rational number. The integer part of a reading is that of its number,
rounded toward zero. A number of a layout is an integer as soon as it has more binary digits than a
fraction of the layout, so cutting a large one loses nothing.
-/
namespace SqlResolution.Binary

-- Powers are the core ones, also where another instance is in scope.
attribute [local instance (high)] instPowNat

/-- The number that a reading stands for, if it is finite. -/
def Reading.rational? : Reading → Option ℚ
  | .finite negative m q => some (if negative then -(m * 2 ^ q) else m * 2 ^ q)
  | _ => none

theorem Reading.ne_nan_of_rational {reading : Reading} {r : ℚ} (h : reading.rational? = some r) :
    reading ≠ .nan := by
  rintro rfl
  cases h

/-- A rational number without its fraction. -/
def towardZero (r : ℚ) : ℤ := if 0 ≤ r then ⌊r⌋ else ⌈r⌉

theorem towardZero_of_nonneg {r : ℚ} (h : 0 ≤ r) : towardZero r = ⌊r⌋ := if_pos h

theorem towardZero_intCast (n : ℤ) : towardZero n = n := by
  simp [towardZero]

theorem towardZero_neg (r : ℚ) : towardZero (-r) = -towardZero r := by
  unfold towardZero
  rcases lt_trichotomy r 0 with hneg | rfl | hpos
  · rw [if_pos (neg_nonneg.mpr hneg.le), if_neg hneg.not_ge, Int.floor_neg]
  · simp
  · rw [if_neg (neg_lt_zero.mpr hpos).not_ge, if_pos hpos.le, Int.ceil_neg]

theorem towardZero_le_of_pos {r : ℚ} (h : 0 < towardZero r) : towardZero r ≤ r := by
  unfold towardZero at h ⊢
  split at h
  · rename_i hr
    rw [if_pos hr]
    exact Int.floor_le r
  · rename_i hr
    have hceil : ⌈r⌉ ≤ 0 := Int.ceil_le.mpr (by exact_mod_cast (not_le.mp hr).le)
    omega

/-- The two parts of a power of two make the power. -/
theorem powTwo_eq (q : ℤ) : ((powTwo q).1 : ℚ) / (powTwo q).2 = 2 ^ q := by
  unfold powTwo
  split
  · rename_i hq
    obtain ⟨k, rfl⟩ := Int.eq_ofNat_of_zero_le hq
    simp
  · rename_i hq
    obtain ⟨k, hk⟩ := Int.eq_ofNat_of_zero_le (show 0 ≤ -q by omega)
    obtain rfl : q = -k := by omega
    simp

/-- The integer part of a reading is its number without the fraction. -/
theorem Reading.truncate?_eq (r : Reading) : r.truncate? = r.rational?.map towardZero := by
  cases r with
  | nan => rfl
  | infinite negative => rfl
  | finite negative m q =>
    have hmagnitude : towardZero (m * 2 ^ q) = m * (powTwo q).1 / (powTwo q).2 := by
      rw [towardZero_of_nonneg (by positivity), ← powTwo_eq, ← mul_div_assoc]
      exact_mod_cast Rat.floor_natCast_div_natCast (m * (powTwo q).1) (powTwo q).2
    cases negative with
    | false => simp [truncate?, rational?, hmagnitude]
    | true => simp [truncate?, rational?, towardZero_neg, hmagnitude]

/-! ### Large numbers -/

namespace Layout

variable {l : Layout} {word : Nat} {negative : Bool} {m : Nat} {q : ℤ} {r : ℚ}

/-- The digits of a finite word are one more than those of its fraction. -/
theorem lt_of_decode (h : l.decode word = .finite negative m q) : m < 2 ^ (l.fractionBits + 1) := by
  have hfraction : word % 2 ^ l.fractionBits < 2 ^ l.fractionBits :=
    Nat.mod_lt _ (Nat.two_pow_pos _)
  have htwice : 2 ^ (l.fractionBits + 1) = 2 * 2 ^ l.fractionBits := Nat.pow_succ'
  unfold decode at h
  dsimp only at h
  split at h
  · split at h <;> cases h
  · split at h
    · cases h
      omega
    · cases h
      omega

/-- A number of a layout that needs all the digits of a word and more is an integer. -/
theorem rational_eq_towardZero (h : (l.decode word).rational? = some r)
    (hlarge : 2 ^ (l.fractionBits + 1) ≤ r) : r = towardZero r := by
  cases hword : l.decode word with
  | nan => simp [hword, Reading.rational?] at h
  | infinite => simp [hword, Reading.rational?] at h
  | finite negative m q =>
    rw [hword, Reading.rational?, Option.some_inj] at h
    have hm : (m : ℚ) < 2 ^ (l.fractionBits + 1) := by exact_mod_cast lt_of_decode hword
    have hpositive : (0 : ℚ) ≤ m * 2 ^ q := by positivity
    have hq : 0 ≤ q := by
      -- A negative exponent would leave the number below its digits.
      by_contra hneg
      have hpow : (2 : ℚ) ^ q ≤ 1 := zpow_le_one_of_nonpos₀ one_le_two (by omega)
      have hle : (m : ℚ) * 2 ^ q ≤ m := mul_le_of_le_one_right m.cast_nonneg hpow
      split at h <;> linarith
    obtain ⟨k, rfl⟩ := Int.eq_ofNat_of_zero_le hq
    obtain rfl : r = ((if negative then -(m * 2 ^ k) else m * 2 ^ k : ℤ) : ℚ) := by
      rw [← h]
      split <;> simp
    rw [towardZero_intCast]

end Layout

end SqlResolution.Binary
