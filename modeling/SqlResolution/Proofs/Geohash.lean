import Mathlib.Data.List.Induction
import SqlResolution.Geohash

/-!
# Geohashes and their texts

A number below `32 ^ size` has `size` base-32 digits, which read as it, and digits of either case
read as a number that has them as its digits, written small. So geohashes of a precision that makes
whole characters and texts of small digits of that length stand for each other.
-/
namespace SqlResolution.Geohash

-- Powers are the core ones, also where another instance is in scope.
attribute [local instance (high)] instPowNat

/-! ### Digits -/

theorem length_alphabet : alphabet.length = 32 := by decide

/-- A digit's value is its place in the alphabet. -/
theorem digitValue?_eq_some_iff {c : Char} {k : Nat} :
    digitValue? c = some k ↔ k < 32 ∧ alphabet.getD k '0' = c.toLower := by
  have hplaces : ∀ k < 32, ∀ j < k, alphabet.getD j '0' ≠ alphabet.getD k '0' := by decide
  have hget : ∀ {j} (h : j < alphabet.length), alphabet[j] = alphabet.getD j '0' := by
    intro j h
    rw [List.getD_eq_getElem?_getD, List.getElem?_eq_getElem h, Option.getD_some]
  rw [digitValue?, List.idxOf?_eq_some_iff]
  constructor
  · rintro ⟨hk, hchar, -⟩
    exact ⟨length_alphabet ▸ hk, (hget hk).symm.trans hchar⟩
  · rintro ⟨hk, hchar⟩
    have hlength : k < alphabet.length := length_alphabet ▸ hk
    refine ⟨hlength, (hget hlength).trans hchar, fun j hj => ?_⟩
    rw [hget (Nat.lt_trans hj hlength), ← hchar]
    exact hplaces k hk j hj

theorem isSome_digitValue?_iff {c : Char} :
    (digitValue? c).isSome = true ↔ c.toLower ∈ alphabet :=
  List.isSome_idxOf?

theorem getD_mem_alphabet {k : Nat} (h : k < 32) : alphabet.getD k '0' ∈ alphabet := by
  have hall : ∀ k < 32, alphabet.getD k '0' ∈ alphabet := by decide
  exact hall k h

/-- The digits of the alphabet are small. -/
theorem toLower_of_mem_alphabet {c : Char} (h : c ∈ alphabet) : c.toLower = c := by
  have hall : alphabet.all (fun c => c.toLower == c) = true := by decide
  exact eq_of_beq (List.all_eq_true.mp hall c h)

theorem digitValue?_getD {k : Nat} (h : k < 32) : digitValue? (alphabet.getD k '0') = some k :=
  digitValue?_eq_some_iff.mpr ⟨h, (toLower_of_mem_alphabet (getD_mem_alphabet h)).symm⟩

/-! ### Numbers -/

theorem readDigits?_concat (cs : List Char) (c : Char) :
    readDigits? (cs ++ [c]) =
      (readDigits? cs).bind fun n => (digitValue? c).map (n * 32 + ·) := by
  simp [readDigits?, List.foldlM_append]

theorem digits_succ (size n : Nat) :
    digits (size + 1) n = digits size (n / 32 : Nat) ++ [alphabet.getD (n % 32) '0'] := by
  have hquotient : (n : Int).fdiv 32 = (n / 32 : Nat) := Int.fdiv_eq_ediv_of_nonneg _ (by decide)
  have hdigit : ((n : Int).fmod 32).toNat = n % 32 := by
    rw [Int.fmod_eq_emod_of_nonneg _ (by decide)]
    omega
  rw [digits, hquotient, hdigit]

theorem mem_digits (size n : Nat) : ∀ c ∈ digits size n, c ∈ alphabet := by
  induction size generalizing n with
  | zero =>
    intro c hc
    cases hc
  | succ size ih =>
    intro c hc
    rw [digits_succ, List.mem_append, List.mem_singleton] at hc
    obtain hc | rfl := hc
    · exact ih _ c hc
    · exact getD_mem_alphabet (Nat.mod_lt n (by decide))

/-- The digits of a number read as it. -/
theorem readDigits?_digits {size n : Nat} (h : n < 32 ^ size) :
    readDigits? (digits size n) = some n := by
  induction size generalizing n with
  | zero =>
    obtain rfl : n = 0 := by simpa using h
    rfl
  | succ size ih =>
    have hquotient : n / 32 < 32 ^ size := by
      rw [Nat.pow_succ] at h
      omega
    rw [digits_succ, readDigits?_concat, ih hquotient, Option.bind_some,
      digitValue?_getD (Nat.mod_lt n (by decide)), Option.map_some, Nat.div_add_mod']

theorem isSome_readDigits?_iff {cs : List Char} :
    (readDigits? cs).isSome = true ↔ ∀ c ∈ cs, c.toLower ∈ alphabet := by
  induction cs using List.reverseRecOn with
  | nil => simp [readDigits?]
  | append_singleton cs c ih =>
    rw [readDigits?_concat, List.forall_mem_append, ← ih, List.forall_mem_singleton,
      ← isSome_digitValue?_iff]
    cases readDigits? cs <;> simp

/-- Digits of either case read as a number that they are the digits of, written small. -/
theorem digits_of_readDigits? {cs : List Char} {n : Nat} (h : readDigits? cs = some n) :
    n < 32 ^ cs.length ∧ digits cs.length n = cs.map Char.toLower := by
  induction cs using List.reverseRecOn generalizing n with
  | nil =>
    cases h
    exact ⟨by decide, rfl⟩
  | append_singleton cs c ih =>
    rw [readDigits?_concat, Option.bind_eq_some_iff] at h
    obtain ⟨m, hm, hdigit⟩ := h
    obtain ⟨k, hk, rfl⟩ := Option.map_eq_some_iff.mp hdigit
    obtain ⟨hlt, hdigits⟩ := ih hm
    obtain ⟨hk, hchar⟩ := digitValue?_eq_some_iff.mp hk
    have hquotient : (m * 32 + k) / 32 = m := by omega
    have hrest : (m * 32 + k) % 32 = k := by omega
    rw [List.length_append, List.length_singleton]
    constructor
    · rw [Nat.pow_succ]
      omega
    · rw [digits_succ, hquotient, hrest, hdigits, hchar, List.map_append, List.map_singleton]

/-! ### Geohashes of whole characters -/

/-- A precision that makes whole characters. -/
structure IsWhole (bits : Nat) : Prop where
  pos : 0 < bits
  le : bits ≤ maxGeohashBits
  whole : bits % 5 = 0

namespace IsWhole

variable {bits : Nat}

theorem pow_eq (h : IsWhole bits) : 2 ^ bits = 32 ^ (bits / 5) := by
  have hbits : bits = 5 * (bits / 5) := (Nat.mul_div_cancel' (Nat.dvd_of_mod_eq_zero h.whole)).symm
  calc 2 ^ bits = 2 ^ (5 * (bits / 5)) := by rw [← hbits]
    _ = 32 ^ (bits / 5) := Nat.pow_mul ..

theorem toInt_ofNat (h : IsWhole bits) {n : Nat} (hn : n < 2 ^ bits) :
    (Int64.ofNat n).toInt = n := by
  refine Int64.toInt_ofNat_of_lt (Nat.lt_of_lt_of_le hn ?_)
  exact Nat.pow_le_pow_right (by decide) (Nat.le_trans h.le (by decide))

/-- A geohash of whole characters is the number that its digits stand for. -/
theorem ofText?_eq (h : IsWhole bits) {text : List Char} (hlength : text.length = bits / 5) :
    ofText? text bits = (readDigits? text).map Int64.ofNat := by
  have hsize : (bits + 4) / 5 = text.length := by
    have := h.whole
    omega
  have hshift : text.length * 5 - bits = 0 := by
    have := h.whole
    omega
  have hnone : (bits == 0 || maxGeohashBits < bits || text.length < text.length) = false := by
    have hpos := h.pos
    have hle := h.le
    simp only [Nat.lt_irrefl, decide_false, Bool.or_false, Bool.or_eq_false_iff,
      beq_eq_false_iff_ne, decide_eq_false_iff_not]
    omega
  unfold ofText?
  simp only [hsize, hshift, hnone, List.take_length, Nat.pow_zero, Nat.div_one, Bool.false_eq_true,
    if_false]

theorem text?_eq (h : IsWhole bits) (v : Int64) :
    text? v bits = some (String.ofList (digits (bits / 5) v.toInt)) := by
  have hwritten : (bits == 0 || bits % 5 != 0) = false := by
    simp [h.whole, Nat.pos_iff_ne_zero.mp h.pos]
  rw [text?, hwritten, if_neg Bool.false_ne_true]

/-- The text of a geohash reads as the geohash. -/
theorem exists_text? (h : IsWhole bits) {v : Int64} (hnonneg : 0 ≤ v.toInt)
    (hlt : v.toInt < (2 ^ bits : Nat)) :
    ∃ s, text? v bits = some s ∧ s.length = bits / 5 ∧ (∀ c ∈ s.toList, c ∈ alphabet) ∧
      ofText? s.toList bits = some v := by
  obtain ⟨n, hn⟩ := Int.eq_ofNat_of_zero_le hnonneg
  have hpow : n < 2 ^ bits := by omega
  have hvalue : Int64.ofNat n = v := Int64.toInt_inj.mp ((h.toInt_ofNat hpow).trans hn.symm)
  refine ⟨String.ofList (digits (bits / 5) n), ?_, ?_, ?_, ?_⟩
  · rw [h.text?_eq, hn]
  · rw [String.length_ofList, length_digits]
  · rw [String.toList_ofList]
    exact mem_digits _ _
  · rw [String.toList_ofList, h.ofText?_eq (length_digits _ _),
      readDigits?_digits (h.pow_eq ▸ hpow), Option.map_some, hvalue]

/-- A text that reads as a geohash is the geohash's text, up to case. -/
theorem text?_of_ofText? (h : IsWhole bits) {s : String} (hlength : s.toList.length = bits / 5)
    {v : Int64} (hv : ofText? s.toList bits = some v) :
    0 ≤ v.toInt ∧ v.toInt < (2 ^ bits : Nat) ∧ text? v bits = some (Text.lowerAscii s) := by
  rw [h.ofText?_eq hlength] at hv
  obtain ⟨n, hn, rfl⟩ := Option.map_eq_some_iff.mp hv
  obtain ⟨hlt, hdigits⟩ := digits_of_readDigits? hn
  rw [hlength, ← h.pow_eq] at hlt
  rw [h.text?_eq, h.toInt_ofNat hlt, ← hlength, hdigits, Text.lowerAscii]
  exact ⟨Int.natCast_nonneg n, Int.ofNat_lt.mpr hlt, rfl⟩

end IsWhole

/-- Geohashes of a precision that makes whole characters and texts of that length stand for each
other. The text of a geohash is written in small digits and reads as the geohash. Of all texts of
the length those read that are made of digits of either case, and the geohash has the text in small
letters. -/
theorem ofText?_text?_of_isWhole {bits : Nat} (h : IsWhole bits) :
    (∀ v : Int64, 0 ≤ v.toInt → v.toInt < (2 ^ bits : Nat) →
      ∃ s, text? v bits = some s ∧ s.length = bits / 5 ∧ (∀ c ∈ s.toList, c ∈ alphabet) ∧
        ofText? s.toList bits = some v) ∧
    ∀ s : String, s.length = bits / 5 →
      ((ofText? s.toList bits).isSome = true ↔ ∀ c ∈ s.toList, c.toLower ∈ alphabet) ∧
      ∀ v, ofText? s.toList bits = some v →
        0 ≤ v.toInt ∧ v.toInt < (2 ^ bits : Nat) ∧ text? v bits = some (Text.lowerAscii s) := by
  constructor
  · intro v hnonneg hlt
    exact h.exists_text? hnonneg hlt
  · intro s hlength
    rw [← String.length_toList] at hlength
    constructor
    · rw [h.ofText?_eq hlength, Option.isSome_map]
      exact isSome_readDigits?_iff
    · intro v hv
      exact h.text?_of_ofText? hlength hv

/-- The greatest geohash of twelve characters is written `zzzzzzzzzzzz`, and a text with capitals
reads as a geohash that is written without. -/
theorem ofText?_text?_of_isWhole_twelve :
    IsWhole 60 ∧ (text? 1152921504606846975 60 = some "zzzzzzzzzzzz" ∧
      ofText? "zzzzzzzzzzzz".toList 60 = some 1152921504606846975) ∧
    ∃ v, ofText? "U4pRUYDQQvj0".toList 60 = some v ∧ text? v 60 = some "u4pruydqqvj0" := by
  have hwhole : IsWhole 60 := ⟨by decide, by decide, by decide⟩
  obtain ⟨hwritten, hread⟩ := ofText?_text?_of_isWhole hwhole
  refine ⟨hwhole, ?_, ?_⟩
  · obtain ⟨s, htext, -, -, hvalue⟩ := hwritten 1152921504606846975 (by decide) (by decide)
    have hzs : text? 1152921504606846975 60 = some "zzzzzzzzzzzz" := by decide +kernel
    obtain rfl : s = "zzzzzzzzzzzz" := Option.some.inj (htext.symm.trans hzs)
    exact ⟨hzs, hvalue⟩
  · have hdigits : "U4pRUYDQQvj0".toList.all (fun c => decide (c.toLower ∈ alphabet)) = true := by
      decide +kernel
    obtain ⟨hiff, hsmall⟩ := hread "U4pRUYDQQvj0" (by decide +kernel)
    obtain ⟨v, hv⟩ := Option.isSome_iff_exists.mp
      (hiff.mpr fun c hc => of_decide_eq_true (List.all_eq_true.mp hdigits c hc))
    obtain ⟨-, -, htext⟩ := hsmall v hv
    refine ⟨v, hv, htext.trans ?_⟩
    decide +kernel

end SqlResolution.Geohash
