import SqlResolution.Long256
import SqlResolution.Proofs.Text.Digits
import SqlResolution.Proofs.Text.Hex
import SqlResolution.Proofs.Text.Slice

/-!
# Words of 256-bit numbers

The words of a number stand for it, and words in any number read back from the number they make.
The digits of a text give the same words whether they are read sixteen at a time or all at once,
and the digits that words are written in read as what the words stand for.
-/
namespace SqlResolution.Long256

open Text

-- Powers are the core ones, also where another instance is in scope.
attribute [local instance (high)] instPowNat

variable {ws : List (BitVec 64)} {cs : List Char} {n : Nat}

/-! ### Words and what they stand for -/

theorem value_append (ws us : List (BitVec 64)) :
    value (ws ++ us) = value ws + 2 ^ (64 * ws.length) * value us := by
  induction ws with
  | nil => simp [value]
  | cons w ws ih =>
    rw [List.cons_append, value, value, ih, List.length_cons, Nat.mul_succ, Nat.pow_add,
      Nat.mul_add, ← Nat.mul_assoc, Nat.mul_comm (2 ^ (64 : Nat)) (2 ^ (64 * _)), Nat.add_assoc]

theorem toNat_extractLsb' (n : BitVec 256) (start : Nat) :
    (n.extractLsb' start 64).toNat = n.toNat / 2 ^ start % 2 ^ (64 : Nat) := by
  rw [BitVec.extractLsb'_toNat, Nat.shiftRight_eq_div_pow]

/-- The words of a number stand for it. -/
theorem value_limbs (n : BitVec 256) : value (limbs n) = n.toNat := by
  have hn := n.isLt
  simp only [limbs, List.map_cons, List.map_nil, value, toNat_extractLsb']
  omega

theorem limbs_ofLimbs (a b c d : BitVec 64) : limbs (ofLimbs [a, b, c, d]) = [a, b, c, d] := by
  have ha := a.isLt
  have hb := b.isLt
  have hc := c.isLt
  have hd := d.isLt
  simp only [limbs, List.map_cons, List.map_nil, List.cons.injEq, and_true]
  refine ⟨?_, ?_, ?_, ?_⟩
  all_goals
    apply BitVec.eq_of_toNat_eq
    simp only [toNat_extractLsb', ofLimbs, BitVec.toNat_ofNat, value]
    omega

/-! ### Reading -/

theorem pow_sixteen (count : Nat) : 16 ^ (16 * count) = 2 ^ (64 * count) := by
  rw [Nat.pow_mul, Nat.pow_mul]

/-- Digits are one byte long. -/
theorem byteLength_of_all (h : cs.all isHexDigit = true) : byteLength cs = cs.length := by
  induction cs with
  | nil => rfl
  | cons c cs ih =>
    rw [List.all_cons, Bool.and_eq_true] at h
    obtain ⟨d, hd⟩ := Option.isSome_iff_exists.mp h.1
    have hone := utf8Size_of_isAlphanum (isAlphanum_of_hexValue? hd)
    rw [byteLength_cons, ih h.2, hone, List.length_cons, Nat.add_comm]

/-- So digits are cut anywhere. -/
theorem cutAt_of_all (h : cs.all isHexDigit = true) {i : Nat} (hi : i ≤ cs.length) :
    cutAt i cs = .ok (cs.take i, cs.drop i) := by
  have hfront : byteLength (cs.take i) = i := by
    rw [byteLength_of_all, List.length_take_of_le hi]
    exact List.all_eq_true.mpr fun c hc => List.all_eq_true.mp h c (List.mem_of_mem_take hc)
  have hcut := cutAt_append (cs.take i) (cs.drop i)
  rwa [List.take_append_drop, hfront] at hcut

/-- Digits read sixteen at a time give words that stand for what all of the digits do. -/
theorem readLimbs_of_readHex? {count : Nat} (h : readHex? cs = some n)
    (hlength : cs.length ≤ 16 * count) :
    ∃ ws, readLimbs count cs = .ok (some ws) ∧ ws.length = count ∧ value ws = n := by
  induction count generalizing cs n with
  | zero =>
    obtain rfl : cs = [] := List.length_eq_zero_iff.mp (Nat.le_zero.mp hlength)
    exact ⟨[], rfl, rfl, Option.some.inj h⟩
  | succ count ih =>
    have hall : cs.all isHexDigit = true := by rw [← isSome_readHex?, h]; rfl
    have hcut : cutAt (byteLength cs - 16) cs =
        .ok (cs.take (cs.length - 16), cs.drop (cs.length - 16)) := by
      rw [byteLength_of_all hall, cutAt_of_all hall (Nat.sub_le _ _)]
    rw [← List.take_append_drop (cs.length - 16) cs, readHex?_append_eq_some_iff] at h
    obtain ⟨high, low, hhigh, hlow, rfl⟩ := h
    obtain ⟨ws, hws, hcount, hvalue⟩ := ih hhigh (by rw [List.length_take]; omega)
    have hlt := readHex?_lt hlow
    refine ⟨BitVec.ofNat 64 low :: ws, ?_, by simp [hcount], ?_⟩
    · simp [readLimbs, hcut, hws, hlow, bind, Except.bind, pure, Except.pure]
    rw [value, hvalue, BitVec.toNat_ofNat]
    rw [List.length_drop] at hlt ⊢
    by_cases hfull : 16 ≤ cs.length
    · have hsixteen : cs.length - (cs.length - 16) = 16 := by omega
      rw [hsixteen] at hlt ⊢
      omega
    · -- Fewer than sixteen digits are all in the low word.
      have hstart : cs.length - 16 = 0 := by omega
      rw [hstart, Nat.sub_zero] at hlt ⊢
      have hle : 16 ^ cs.length ≤ 16 ^ (16 : Nat) := Nat.pow_le_pow_right (by decide) (by omega)
      obtain rfl : 0 = high := by simpa [hstart, readHex?] using hhigh
      omega

/-! ### Writing -/

theorem value_reverse_cons (w : BitVec 64) (ws : List (BitVec 64)) :
    value (w :: ws).reverse = w.toNat * 16 ^ (16 * ws.length) + value ws.reverse := by
  rw [List.reverse_cons, value_append, List.length_reverse, pow_sixteen, Nat.add_comm,
    Nat.mul_comm]
  simp [value]

theorem length_flatMap_hexFixed (ws : List (BitVec 64)) :
    (ws.flatMap fun w => hexFixed 16 w.toNat).length = 16 * ws.length := by
  induction ws with
  | nil => rfl
  | cons w ws ih =>
    rw [List.flatMap_cons, List.length_append, length_hexFixed, ih, List.length_cons]
    omega

theorem readHex?_flatMap_hexFixed (ws : List (BitVec 64)) :
    readHex? (ws.flatMap fun w => hexFixed 16 w.toNat) = some (value ws.reverse) := by
  induction ws with
  | nil => rfl
  | cons w ws ih =>
    rw [List.flatMap_cons, value_reverse_cons, readHex?_append_eq_some_iff]
    exact ⟨w.toNat, value ws.reverse, readHex?_hexFixed w.isLt, ih,
      by rw [length_flatMap_hexFixed]⟩

/-- The digits of words read as what they stand for. -/
theorem readHex?_digits (ws : List (BitVec 64)) :
    readHex? (digits ws) = some (value ws.reverse) := by
  induction ws with
  | nil => rfl
  | cons w ws ih =>
    rw [digits, value_reverse_cons]
    split
    · rename_i hzero
      simp [eq_of_beq hzero, ih]
    · rw [readHex?_append_eq_some_iff]
      exact ⟨w.toNat, value ws.reverse, readHex?_hexLeast w.toNat, readHex?_flatMap_hexFixed ws,
        by rw [length_flatMap_hexFixed]⟩

theorem length_digits_le (h : ws ≠ []) : (digits ws).length ≤ 16 * ws.length := by
  induction ws with
  | nil => exact absurd rfl h
  | cons w ws ih =>
    rw [digits, List.length_cons]
    split
    · by_cases hnil : ws = []
      · simp [hnil, digits]
      · have hle := ih hnil
        omega
    · have hfirst : (hexLeast w.toNat).length ≤ 16 :=
        (length_hexLeast_le_iff (by decide)).mpr w.isLt
      rw [List.length_append, length_flatMap_hexFixed]
      omega

theorem digits_ne_nil (ws : List (BitVec 64)) : digits ws ≠ [] := by
  induction ws with
  | nil => simp [digits]
  | cons w ws ih =>
    rw [digits]
    split
    · exact ih
    · simp [hexLeast, Nat.toDigits_ne_nil]

/-! ### Whole numbers -/

theorem read_of_readHex? (hne : cs ≠ []) (hlength : cs.length ≤ 64) (h : readHex? cs = some n) :
    read cs = .ok (some (BitVec.ofNat 256 n)) ∧ n < 2 ^ (256 : Nat) := by
  have hall : cs.all isHexDigit = true := by rw [← isSome_readHex?, h]; rfl
  have hfour : cs.length ≤ 16 * 4 := hlength
  obtain ⟨ws, hws, -, hvalue⟩ := readLimbs_of_readHex? h hfour
  have hlt : n < 2 ^ (256 : Nat) :=
    calc n < 16 ^ cs.length := readHex?_lt h
      _ ≤ 16 ^ (64 : Nat) := Nat.pow_le_pow_right (by decide) hlength
      _ = 2 ^ (256 : Nat) := pow_sixteen 4
  refine ⟨?_, hlt⟩
  simp [read, hne, hall, byteLength_of_all hall, Nat.not_lt.mpr hlength, hws, ofLimbs, hvalue,
    Except.map]

theorem length_le_byteLength (cs : List Char) : cs.length ≤ byteLength cs := by
  induction cs with
  | nil => exact Nat.le_refl 0
  | cons c cs ih =>
    have hpos := c.utf8Size_pos
    rw [List.length_cons, byteLength_cons]
    omega

theorem read_of_length_lt (h : 64 < cs.length) : read cs = .ok none := by
  have hlong : 64 < byteLength cs := Nat.lt_of_lt_of_le h (length_le_byteLength cs)
  simp [read, hlong]

/-- Nothing is cut inside a character, since nothing but digits is cut. -/
theorem exists_read_eq_ok (cs : List Char) : ∃ r, read cs = .ok r := by
  by_cases hguard :
      (cs.isEmpty || decide (64 < byteLength cs) || !cs.all isHexDigit) = true
  · exact ⟨none, by rw [read, if_pos hguard]⟩
  · simp only [Bool.or_eq_true, decide_eq_true_eq, Bool.not_eq_true', not_or,
      Bool.not_eq_false, List.isEmpty_iff] at hguard
    obtain ⟨⟨hne, hlength⟩, hall⟩ := hguard
    rw [byteLength_of_all hall, Nat.not_lt] at hlength
    obtain ⟨n, hn⟩ := Option.isSome_iff_exists.mp ((isSome_readHex? cs).trans hall)
    exact ⟨_, (read_of_readHex? hne hlength hn).1⟩

/-- The digits of a number read as the number. -/
theorem read_digits (n : BitVec 256) : read (digits (limbs n).reverse) = .ok (some n) := by
  have hread := readHex?_digits (limbs n).reverse
  rw [List.reverse_reverse, value_limbs] at hread
  have hne : (limbs n).reverse ≠ [] := by simp [limbs]
  have hlength := length_digits_le hne
  obtain ⟨hread, -⟩ := read_of_readHex? (digits_ne_nil _) hlength hread
  rw [hread, BitVec.ofNat_toNat, BitVec.setWidth_eq]

end SqlResolution.Long256
