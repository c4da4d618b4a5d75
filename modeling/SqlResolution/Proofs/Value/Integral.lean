import SqlResolution.Proofs.Binary.Missing
import SqlResolution.Proofs.Binary.Rational
import SqlResolution.Value.Convert

/-!
# Floating-point values cast to integers

A finite value cast to a type of integers is its number without the fraction, or null where that
integer is out of the type's range. The bounds that a number is compared with are doubles, and the
one above is `2 ^ 63`: this number passes and becomes the greatest LONG.
-/
namespace SqlResolution.Value

open Binary

/-- The types of integers. -/
def integerTypes : List TypeTag := [.byte, .short, .int, .long]

/-- The number that a finite floating-point value stands for. -/
def rational? : Value → Option ℚ
  | double x => (readDouble x).rational?
  | float x => (readSingle x).rational?
  | _ => none

/-- An integer as a value of a type, null where it is out of the type's range. -/
def ofInteger (target : TypeTag) (n : ℤ) : Value :=
  match target with
  | .byte => if -2 ^ 7 ≤ n ∧ n < 2 ^ 7 then byte (Int8.ofInt n) else null
  | .short => if -2 ^ 15 ≤ n ∧ n < 2 ^ 15 then short (Int16.ofInt n) else null
  | .int => if -2 ^ 31 ≤ n ∧ n < 2 ^ 31 then int (Int32.ofInt n) else null
  | .long => if -2 ^ 63 ≤ n ∧ n < 2 ^ 63 then long (Int64.ofInt n) else null
  | _ => null

variable {T : TypeTag} {v : Value} {r : ℚ}

/-- A finite value is no null, and its integer is that of a word of single or double width. -/
theorem exists_word (h : v.rational? = some r) :
    v.isNull = false ∧ ∃ (l : Layout) (word : ℕ), l.fractionBits ≤ 52 ∧
      (l.decode word).rational? = some r ∧ v.toIntegral? = saturate? (l.decode word) := by
  cases v with
  | double x =>
    have hnumber : ¬x.isNaN = true := by
      rw [isNaN_double_iff]
      exact Reading.ne_nan_of_rational h
    exact ⟨Bool.eq_false_iff.mpr hnumber, Binary.double, _, le_rfl, h, rfl⟩
  | float x =>
    have hnumber : ¬x.isNaN = true := by
      rw [isNaN_single_iff]
      exact Reading.ne_nan_of_rational h
    exact ⟨Bool.eq_false_iff.mpr hnumber, Binary.single, _, by decide, h, rfl⟩
  | _ => cases h

/-- The integer of a finite value, where it is at most one past the greatest word, which that one
becomes. -/
theorem map_toIntegral? (h : v.rational? = some r) :
    v.toIntegral?.map Int64.toInt =
      if -2 ^ 63 ≤ towardZero r ∧ towardZero r ≤ 2 ^ 63 then some (min (towardZero r) (2 ^ 63 - 1))
      else none := by
  obtain ⟨-, l, word, -, hr, hintegral⟩ := exists_word h
  rw [hintegral, saturate?, Reading.truncate?_eq, hr, Option.map_some, Option.bind_eq_bind,
    Option.bind_some, Int64.toInt_minValue, Int64.toInt_maxValue]
  generalize towardZero r = n
  by_cases hn : -2 ^ 63 ≤ n ∧ n ≤ 2 ^ 63
  · have hword : (Int64.ofInt (min n (2 ^ 63 - 1))).toInt = min n (2 ^ 63 - 1) :=
      Int64.toInt_ofInt_of_le (by omega) (by omega)
    have hbound : -2 ^ 63 ≤ n ∧ n ≤ 2 ^ 63 - 1 + 1 := by omega
    simp only [Bool.and_eq_true, decide_eq_true_eq, if_pos hn, if_pos hbound, Option.map_some,
      hword]
  · have hbound : ¬(-2 ^ 63 ≤ n ∧ n ≤ 2 ^ 63 - 1 + 1) := by omega
    simp only [Bool.and_eq_true, decide_eq_true_eq, if_neg hn, if_neg hbound, Option.map_none]

/-- The greatest word is in no narrower range, so there the bound does not show. -/
theorem getD_toIntegralBetween? {k : ℕ} (hk : k < 63) (h : v.rational? = some r)
    (make : ℤ → Value) :
    ((v.toIntegralBetween? (-2 ^ k) (2 ^ k - 1)).map make).getD null =
      if -2 ^ k ≤ towardZero r ∧ towardZero r < 2 ^ k then make (towardZero r) else null := by
  have hpow : (2 : ℤ) ^ k < 2 ^ 63 := pow_lt_pow_right₀ one_lt_two hk
  rw [toIntegralBetween?, map_toIntegral? h]
  generalize towardZero r = n
  by_cases hn : -2 ^ k ≤ n ∧ n < 2 ^ k
  · have hmin : min n (2 ^ 63 - 1) = n := by omega
    have hfits : -2 ^ k ≤ n ∧ n ≤ 2 ^ k - 1 := by omega
    rw [if_pos (by omega), if_pos hn, hmin]
    simp only [Option.filter_some, Bool.and_eq_true, decide_eq_true_eq, if_pos hfits]
    rfl
  · rw [if_neg hn]
    split
    · have hout : ¬(-2 ^ k ≤ min n (2 ^ 63 - 1) ∧ min n (2 ^ 63 - 1) ≤ 2 ^ k - 1) := by omega
      simp only [Option.filter_some, Bool.and_eq_true, decide_eq_true_eq, if_neg hout]
      rfl
    · rfl

theorem cast_of_rational (h : v.rational? = some r) (scales : TextScales) (T : TypeTag) :
    v.cast scales T = (v.convert? scales T).getD null := by
  obtain ⟨hnull, -⟩ := exists_word h
  rw [cast, hnull]
  rfl

theorem cast_long_of_rational (h : v.rational? = some r) (scales : TextScales) :
    v.cast scales .long =
      if -2 ^ 63 ≤ towardZero r ∧ towardZero r ≤ 2 ^ 63 then
        long (Int64.ofInt (min (towardZero r) (2 ^ 63 - 1)))
      else null := by
  have hintegral := map_toIntegral? h
  rw [cast_of_rational h, convert?]
  cases hword : v.toIntegral? with
  | none =>
    rw [hword] at hintegral
    split at hintegral
    · cases hintegral
    · rename_i hout
      rw [if_neg hout]
      rfl
  | some word =>
    rw [hword] at hintegral
    split at hintegral
    · rename_i hin
      rw [if_pos hin, ← Option.some_inj.mp hintegral, Int64.ofInt_toInt]
      rfl
    · cases hintegral

/-- A value whose integer is the bound has no fraction, so it is the bound. -/
theorem eq_bound_of_towardZero (h : v.rational? = some r) (hcut : towardZero r = 2 ^ 63) :
    r = 2 ^ 63 := by
  obtain ⟨-, l, word, hdigits, hr, -⟩ := exists_word h
  have hpast : (2 : ℚ) ^ (l.fractionBits + 1) ≤ 2 ^ 63 :=
    pow_le_pow_right₀ one_le_two (by omega)
  have hlarge : 2 ^ 63 ≤ r := by
    have hle := towardZero_le_of_pos (r := r) (by rw [hcut]; norm_num)
    rw [hcut] at hle
    exact_mod_cast hle
  rw [Layout.rational_eq_towardZero hr (hpast.trans hlarge), hcut]
  norm_num

theorem towardZero_bound : towardZero (2 ^ 63) = 2 ^ 63 := by norm_num [towardZero]

/-- A finite value cast to a type of integers is its number without the fraction, or null where the
type has no such integer, but for `2 ^ 63` as a LONG. -/
theorem cast_eq_ofInteger (hT : T ∈ integerTypes) (h : v.rational? = some r)
    (hbound : ¬(T = .long ∧ r = 2 ^ 63)) (scales : TextScales) :
    v.cast scales T = ofInteger T (towardZero r) := by
  simp only [integerTypes, List.mem_cons, List.not_mem_nil, or_false] at hT
  obtain rfl | rfl | rfl | rfl := hT
  · rw [cast_of_rational h, convert?, Int8.toInt_minValue, Int8.toInt_maxValue]
    exact getD_toIntegralBetween? (by decide) h _
  · rw [cast_of_rational h, convert?, Int16.toInt_minValue, Int16.toInt_maxValue]
    exact getD_toIntegralBetween? (by decide) h _
  · rw [cast_of_rational h, convert?, Int32.toInt_minValue, Int32.toInt_maxValue]
    exact getD_toIntegralBetween? (by decide) h _
  · have hne : towardZero r ≠ 2 ^ 63 := fun hcut => hbound ⟨rfl, eq_bound_of_towardZero h hcut⟩
    rw [cast_long_of_rational h, ofInteger]
    by_cases hin : -2 ^ 63 ≤ towardZero r ∧ towardZero r < 2 ^ 63
    · rw [if_pos (by omega), if_pos hin, min_eq_left (by omega)]
    · rw [if_neg (by omega), if_neg hin]

/-- The bound as a LONG is the greatest one, which is another integer. -/
theorem cast_long_bound (h : v.rational? = some (2 ^ 63)) (scales : TextScales) :
    v.cast scales .long = long Int64.maxValue := by
  rw [cast_long_of_rational h, towardZero_bound, if_pos (by norm_num)]
  rfl

theorem cast_eq_ofInteger_iff (hT : T ∈ integerTypes) (h : v.rational? = some r)
    (scales : TextScales) :
    v.cast scales T = ofInteger T (towardZero r) ↔ ¬(T = .long ∧ r = 2 ^ 63) := by
  refine ⟨?_, fun hbound => cast_eq_ofInteger hT h hbound scales⟩
  rintro hcast ⟨rfl, rfl⟩
  rw [cast_long_bound h, towardZero_bound, ofInteger, if_neg (by norm_num)] at hcast
  cases hcast

end SqlResolution.Value
