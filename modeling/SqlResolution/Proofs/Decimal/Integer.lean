import Mathlib.Data.List.TakeWhile
import SqlResolution.Decimal.Number
import SqlResolution.Proofs.Text.Digits

/-!
# Integers read as floating-point numbers

Digits alone denote an integer, and the word that is read is the one nearest to it. That also holds
of the integers with more than 400 digits, which are taken for infinite without a division.
-/
namespace SqlResolution.Decimal

open Binary Text

-- Powers are the core ones, also where another instance is in scope.
attribute [local instance (high)] instPowNat

variable {l : Layout} {n : Nat} {cs : List Char}

/-! ### Past the greatest number of a layout -/

theorem le_floorLog {k : Nat} (h : 2 ^ (k + 1) ≤ n) : (k : Int) ≤ floorLog n 1 := by
  have hpos : 0 < n := Nat.lt_of_lt_of_le (Nat.pow_pos (by decide)) h
  have hlog : k + 1 ≤ n.log2 := (Nat.le_log2 (Nat.ne_of_gt hpos)).mpr h
  have hone : Nat.log2 1 = 0 := by decide
  simp only [floorLog, hone]
  split
  all_goals omega

/-- A number whose exponent is past the greatest one goes to infinity. -/
theorem nearest_eq_infinity {num den : Nat} (hnum : num ≠ 0)
    (h : l.specialExponent + l.leastExponent + l.fractionBits ≤ floorLog num den) :
    l.nearest num den = l.infinity false := by
  have hzero : (num == 0) = false := by simpa using hnum
  simp only [Layout.nearest, hzero, Layout.infinity, Layout.signed, Bool.false_eq_true, if_false]
  apply Nat.min_eq_right
  apply Nat.le_trans _ (Nat.le_add_right _ _)
  apply Nat.mul_le_mul_right
  omega

theorem nearest_of_many_digits {size : Nat} (hsize : 400 ≤ size) (h : 10 ^ size ≤ n) :
    double.nearest n 1 = double.infinity false := by
  have hpow : 2 ^ (3 * size) ≤ n :=
    calc 2 ^ (3 * size) = 8 ^ size := Nat.pow_mul 2 3 size
      _ ≤ 10 ^ size := Nat.pow_le_pow_left (by decide) size
      _ ≤ n := h
  have hpos : 0 < n := Nat.lt_of_lt_of_le (Nat.pow_pos (by decide)) hpow
  have hsplit : 3 * size = 3 * size - 1 + 1 := by omega
  have hlog := le_floorLog (hsplit ▸ hpow)
  have hspecial : double.specialExponent = 2047 := by decide
  have hleast : double.leastExponent = -1074 := by decide
  have hbits : double.fractionBits = 52 := rfl
  apply nearest_eq_infinity (Nat.ne_of_gt hpos)
  rw [hspecial, hleast, hbits]
  omega

theorem nearest_integer (hn : n ≠ 0) : Scaled.nearest double ⟨n, 0⟩ = double.nearest n 1 := by
  have hzero : (n == 0) = false := by simpa using hn
  have hsmall : decide (((Nat.toDigits 10 n).length : Int) < -400) = false := by simp
  simp only [Scaled.nearest, hzero, Bool.false_or, Int.add_zero, hsmall, Bool.false_eq_true,
    if_false]
  split
  · rename_i hmany
    have hle := Nat.length_toDigits_le_iff (n := n) (k := 400) (by decide : 1 < 10) (by decide)
    rw [nearest_of_many_digits (Nat.le_refl 400)]
    omega
  · simp [powTen]

/-! ### Digits alone -/

theorem readPlain?_digits (hne : cs ≠ []) (h : ∀ c ∈ cs, c.isDigit = true) :
    readPlain? cs = some ⟨digitsValue 0 cs, 0⟩ := by
  have hpoint : ∀ c ∈ cs, (c != '.') = true := by
    intro c hc
    simp [ne_of_isDigit (h c hc) (by decide : '.'.isDigit = false)]
  have hdigits : cs.all Char.isDigit = true := List.all_eq_true.mpr h
  simp [readPlain?, List.takeWhile_eq_self_iff.mpr hpoint, List.dropWhile_eq_nil_iff.mpr hpoint,
    hne, hdigits]

theorem readScaled?_digits (hne : cs ≠ []) (h : ∀ c ∈ cs, c.isDigit = true) :
    readScaled? cs = some ⟨digitsValue 0 cs, 0⟩ := by
  have hmark : ∀ c ∈ cs, (!(c == 'e' || c == 'E')) = true := by
    intro c hc
    simp [ne_of_isDigit (h c hc) (by decide : 'e'.isDigit = false),
      ne_of_isDigit (h c hc) (by decide : 'E'.isDigit = false)]
  unfold readScaled?
  simp only [List.takeWhile_eq_self_iff.mpr hmark, List.dropWhile_eq_nil_iff.mpr hmark,
    readPlain?_digits hne h]

theorem readMagnitude?_digits (hne : cs ≠ []) (h : ∀ c ∈ cs, c.isDigit = true)
    (hn : digitsValue 0 cs ≠ 0) :
    readMagnitude? double cs = some (double.nearest (digitsValue 0 cs) 1) := by
  obtain ⟨c, rest, rfl⟩ := List.exists_cons_of_ne_nil hne
  have hdigit := h c (by simp)
  have hlower := toLower_of_not_isAlpha (isAlpha_of_isDigit hdigit)
  have hword {word : String} {d : Char} {ds : List Char} (hhead : word.toList = d :: ds)
      (hd : d.isDigit = false) : (lowerAscii (String.ofList (c :: rest)) == word) = false := by
    apply lowerAscii_beq_of_head String.toList_ofList hhead
    rw [hlower]
    exact ne_of_isDigit hdigit hd
  have hinf : (lowerAscii (String.ofList (c :: rest)) == "inf") = false := hword rfl rfl
  have hinfinity : (lowerAscii (String.ofList (c :: rest)) == "infinity") = false := hword rfl rfl
  have hnan : (lowerAscii (String.ofList (c :: rest)) == "nan") = false := hword rfl rfl
  unfold readMagnitude?
  simp only [hinf, hinfinity, hnan, readScaled?_digits hne h, Option.map_some,
    nearest_integer hn, Bool.or_self, Bool.false_eq_true, if_false]

theorem doubleOfInt_natCast (n : Nat) :
    doubleOfInt n = Float.ofBits (UInt64.ofNat (double.nearest n 1)) := by
  have hpos : ¬(n : Int) < 0 := by omega
  simp [doubleOfInt, toDouble, Layout.encode, powTwo, Layout.signed, hpos]

theorem doubleOfInt_neg (hn : n ≠ 0) :
    doubleOfInt (-n) = Float.ofBits (UInt64.ofNat (double.signed true (double.nearest n 1))) := by
  have hpos : 0 < n := Nat.pos_of_ne_zero hn
  simp [doubleOfInt, toDouble, Layout.encode, powTwo, hpos]

/-- The text of an integer reads as the double nearest to it. -/
theorem readDouble?_digits (hne : cs ≠ []) (h : ∀ c ∈ cs, c.isDigit = true)
    (hn : digitsValue 0 cs ≠ 0) :
    readDouble? cs = some (doubleOfInt (digitsValue 0 cs)) := by
  have hread := readMagnitude?_digits hne h hn
  have hword : readWord? double cs = readMagnitude? double cs := by
    unfold readWord?
    split
    · exact absurd (h '-' (by simp)) (by decide)
    · exact absurd (h '+' (by simp)) (by decide)
    · rfl
  rw [readDouble?, hword, hread, doubleOfInt_natCast]
  rfl

theorem readDouble?_plus (hne : cs ≠ []) (h : ∀ c ∈ cs, c.isDigit = true)
    (hn : digitsValue 0 cs ≠ 0) :
    readDouble? ('+' :: cs) = some (doubleOfInt (digitsValue 0 cs)) := by
  simp [readDouble?, readWord?, readMagnitude?_digits hne h hn, doubleOfInt_natCast]

theorem readDouble?_minus (hne : cs ≠ []) (h : ∀ c ∈ cs, c.isDigit = true)
    (hn : digitsValue 0 cs ≠ 0) :
    readDouble? ('-' :: cs) = some (doubleOfInt (-(digitsValue 0 cs : Int))) := by
  simp [readDouble?, readWord?, readMagnitude?_digits hne h hn, doubleOfInt_neg hn]

end SqlResolution.Decimal
