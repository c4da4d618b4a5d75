import SqlResolution.Proofs.Geohash

/-!
# Geohashes of lower precision

The geohash of a text is the number of its digits without the bits past the precision. Narrowing a
geohash drops low bits, so it comes to the same as reading fewer bits of the text, and narrowing in
steps to the same as narrowing at once.
-/
namespace SqlResolution.Geohash

-- Powers are the core ones, also where another instance is in scope.
attribute [local instance (high)] instPowNat

variable {text : List Char} {bits a b c d n : Nat} {v : Int64}

/-! ### Reading fewer bits -/

/-- The digits before others stand for the leading digits of the number. -/
theorem readDigits?_div_of_append {cs ds : List Char} (h : readDigits? (cs ++ ds) = some n) :
    readDigits? cs = some (n / 32 ^ ds.length) := by
  induction ds using List.reverseRecOn generalizing n with
  | nil => simpa using h
  | append_singleton ds c ih =>
    rw [← List.append_assoc, readDigits?_concat, Option.bind_eq_some_iff] at h
    obtain ⟨m, hm, hdigit⟩ := h
    obtain ⟨k, hk, rfl⟩ := Option.map_eq_some_iff.mp hdigit
    have hquotient : (m * 32 + k) / 32 = m := by
      have := (digitValue?_eq_some_iff.mp hk).1
      omega
    rw [ih hm, List.length_append, List.length_singleton, Nat.pow_succ', ← Nat.div_div_eq_div_mul,
      hquotient]

/-- The digits that hold the leading `bits` of a text, read as `n`. -/
structure Leads (text : List Char) (bits n : Nat) : Prop where
  pos : 0 < bits
  le : bits ≤ maxGeohashBits
  length : (bits + 4) / 5 ≤ text.length
  read : readDigits? (text.take ((bits + 4) / 5)) = some n

theorem ofText?_eq_some_iff : ofText? text bits = some v ↔
    ∃ n, Leads text bits n ∧ v = Int64.ofNat (n / 2 ^ ((bits + 4) / 5 * 5 - bits)) := by
  rw [ofText?, Option.ite_none_left_eq_some, Option.map_eq_some_iff]
  simp only [Bool.or_eq_true, beq_iff_eq, decide_eq_true_eq, not_or, Nat.not_lt]
  constructor
  · rintro ⟨⟨⟨pos, le⟩, length⟩, n, read, rfl⟩
    exact ⟨n, ⟨Nat.pos_of_ne_zero pos, le, length, read⟩, rfl⟩
  · rintro ⟨n, ⟨pos, le, length, read⟩, rfl⟩
    exact ⟨⟨⟨Nat.ne_of_gt pos, le⟩, length⟩, n, read, rfl⟩

namespace Leads

/-- The value of the leading bits has no more of them. -/
theorem div_lt (h : Leads text bits n) : n / 2 ^ ((bits + 4) / 5 * 5 - bits) < 2 ^ bits := by
  have hdigits := (digits_of_readDigits? h.read).1
  rw [List.length_take, Nat.min_eq_left h.length] at hdigits
  have hsplit : 5 * ((bits + 4) / 5) = ((bits + 4) / 5 * 5 - bits) + bits := by omega
  have hpow : 32 ^ ((bits + 4) / 5) = 2 ^ (5 * ((bits + 4) / 5)) := (Nat.pow_mul 2 5 _).symm
  rw [hpow, hsplit, Nat.pow_add] at hdigits
  exact Nat.div_lt_of_lt_mul hdigits

theorem toInt_ofNat (h : Leads text bits n) :
    (Int64.ofNat (n / 2 ^ ((bits + 4) / 5 * 5 - bits))).toInt =
      (n / 2 ^ ((bits + 4) / 5 * 5 - bits) : Nat) :=
  Int64.toInt_ofNat_of_lt (Nat.lt_of_lt_of_le h.div_lt
    (Nat.pow_le_pow_right (by decide) (Nat.le_trans h.le (by decide))))

/-- Fewer bits are held by fewer digits. -/
theorem lower (h : Leads text b n) (hpos : 0 < a) (hle : a ≤ b) :
    Leads text a (n / 32 ^ ((b + 4) / 5 - (a + 4) / 5)) := by
  have hsize : (a + 4) / 5 ≤ (b + 4) / 5 := by omega
  refine ⟨hpos, Nat.le_trans hle h.le, Nat.le_trans hsize h.length, ?_⟩
  have hsplit : text.take ((b + 4) / 5) =
      text.take ((a + 4) / 5) ++ (text.take ((b + 4) / 5)).drop ((a + 4) / 5) := by
    conv_lhs => rw [← List.take_append_drop ((a + 4) / 5) (text.take ((b + 4) / 5))]
    rw [List.take_take, Nat.min_eq_left hsize]
  have hread := h.read
  rw [hsplit] at hread
  have hlength : ((text.take ((b + 4) / 5)).drop ((a + 4) / 5)).length =
      (b + 4) / 5 - (a + 4) / 5 := by
    rw [List.length_drop, List.length_take, Nat.min_eq_left h.length]
  rw [readDigits?_div_of_append hread, hlength]

end Leads

theorem toInt_of_ofText? (h : ofText? text bits = some v) :
    0 < bits ∧ bits ≤ maxGeohashBits ∧ 0 ≤ v.toInt ∧ v.toInt < (2 ^ bits : Nat) := by
  obtain ⟨n, hleads, rfl⟩ := ofText?_eq_some_iff.mp h
  rw [hleads.toInt_ofNat]
  exact ⟨hleads.pos, hleads.le, Int.natCast_nonneg _, Int.ofNat_lt.mpr hleads.div_lt⟩

/-! ### Narrowing -/

theorem toInt_ediv_pow (v : Int64) (k : Nat) :
    (Int64.ofInt (v.toInt / 2 ^ k)).toInt = v.toInt / 2 ^ k := by
  have hpos : (0 : Int) < 2 ^ k := Int.pow_pos (by decide)
  have hlo := v.le_toInt
  have hhi := v.toInt_lt
  refine Int64.toInt_ofInt_of_le ?_ ?_
  · rw [Int.le_ediv_iff_mul_le hpos]
    omega
  · rw [Int.ediv_lt_iff_lt_mul hpos]
    omega

/-- Narrowing divides by a power of two, rounding down, where it drops fewer bits than a word
has. -/
theorem toInt_narrow (v : Int64) (hle : a ≤ b) (hlt : b < a + 64) :
    (narrow v b a).toInt = v.toInt / 2 ^ (b - a) := by
  have hshift : (b + 256 - a) % 256 % 64 = b - a := by omega
  have hpos : (0 : Int) ≤ 2 ^ (b - a) := Int.pow_nonneg (by decide)
  unfold narrow
  dsimp only
  rw [hshift, Int.fdiv_eq_ediv_of_nonneg _ hpos]
  exact toInt_ediv_pow v (b - a)

/-- Narrowing in steps comes to the same as narrowing at once. -/
theorem narrow_narrow (v : Int64) (hdc : d ≤ c) (hcb : c ≤ b) (hlt : b < d + 64) :
    narrow (narrow v b c) c d = narrow v b d := by
  have hsplit : b - d = (b - c) + (c - d) := by omega
  rw [← Int64.toInt_inj, toInt_narrow _ hdc (by omega), toInt_narrow v hcb (by omega),
    toInt_narrow v (Nat.le_trans hdc hcb) hlt, hsplit, Int.pow_add,
    Int.ediv_ediv_of_nonneg (Int.pow_nonneg (by decide))]

/-- Fewer bits of a text are the leading bits of its geohash. -/
theorem ofText?_of_le (hpos : 0 < a) (hle : a ≤ b) (h : ofText? text b = some v) :
    ofText? text a = some (narrow v b a) := by
  obtain ⟨n, hleads, rfl⟩ := ofText?_eq_some_iff.mp h
  have hlower := hleads.lower hpos hle
  refine ofText?_eq_some_iff.mpr ⟨_, hlower, ?_⟩
  have hb : b ≤ 60 := hleads.le
  rw [← Int64.toInt_inj, toInt_narrow _ hle (by omega), hleads.toInt_ofNat, hlower.toInt_ofNat]
  -- Both drop all bits but the leading `a` of the longer number.
  have hdropped : 5 * ((b + 4) / 5 - (a + 4) / 5) + ((a + 4) / 5 * 5 - a) =
      ((b + 4) / 5 * 5 - b) + (b - a) := by omega
  have hpow : 32 ^ ((b + 4) / 5 - (a + 4) / 5) = 2 ^ (5 * ((b + 4) / 5 - (a + 4) / 5)) :=
    (Nat.pow_mul 2 5 _).symm
  have hquotient : n / 2 ^ ((b + 4) / 5 * 5 - b) / 2 ^ (b - a) =
      n / 32 ^ ((b + 4) / 5 - (a + 4) / 5) / 2 ^ ((a + 4) / 5 * 5 - a) := by
    rw [hpow, Nat.div_div_eq_div_mul, Nat.div_div_eq_div_mul, ← Nat.pow_add, ← Nat.pow_add,
      hdropped]
  rw [← hquotient]
  norm_cast

end SqlResolution.Geohash
