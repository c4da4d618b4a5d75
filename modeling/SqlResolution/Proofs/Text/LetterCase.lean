import Mathlib
import SqlResolution.Proofs.Text.Blank
import SqlResolution.Proofs.Text.Digits
import SqlResolution.Proofs.Text.Slice
import SqlResolution.Text.Ascii

/-!
# What small letters leave alone

A letter and its small letter differ in case only: neither is blank, and both are one byte long.
Every other character is its own small letter. So blanks and marks stand where they did, and
trimming commutes with writing a text in small letters. Texts are equal in small letters where they
differ in the case of letters only.
-/
namespace SqlResolution.Text

variable {c d : Char}

/-- A character other than a letter stands where it stood. -/
theorem toLower_eq_iff (hd : d.isAlpha = false) : c.toLower = d ↔ c = d := by
  constructor
  · rintro rfl
    rw [Char.isAlpha_toLower_eq_isAlpha] at hd
    rw [toLower_of_not_isAlpha hd]
  · rintro rfl
    exact toLower_of_not_isAlpha hd

theorem mem_map_toLower {cs : List Char} (hc : c.isAlpha = false) :
    c ∈ cs.map Char.toLower ↔ c ∈ cs := by
  simp only [List.mem_map, toLower_eq_iff hc, exists_eq_right]

theorem isBlank_toLower (c : Char) : isBlank c.toLower = isBlank c := by
  cases halpha : c.isAlpha with
  | false => rw [toLower_of_not_isAlpha halpha]
  | true =>
    have hplain : ∀ d : Char, d.isAlpha = true → isBlank d = false :=
      fun d hd => isBlank_of_isAlphanum (by simp [Char.isAlphanum, hd])
    rw [hplain c halpha, hplain c.toLower (by rwa [Char.isAlpha_toLower_eq_isAlpha])]

theorem utf8Size_toLower (c : Char) : c.toLower.utf8Size = c.utf8Size := by
  cases halpha : c.isAlpha with
  | false => rw [toLower_of_not_isAlpha halpha]
  | true =>
    have hone : ∀ d : Char, d.isAlpha = true → d.utf8Size = 1 :=
      fun d hd => utf8Size_of_isAlphanum (by simp [Char.isAlphanum, hd])
    rw [hone c halpha, hone c.toLower (by rwa [Char.isAlpha_toLower_eq_isAlpha])]

@[simp] theorem byteLength_map_toLower (cs : List Char) :
    byteLength (cs.map Char.toLower) = byteLength cs := by
  induction cs with
  | nil => rfl
  | cons c cs ih => rw [List.map_cons, byteLength_cons, byteLength_cons, ih, utf8Size_toLower]

theorem map_toLower_map_toLower (cs : List Char) :
    (cs.map Char.toLower).map Char.toLower = cs.map Char.toLower := by
  simp

theorem lowerAscii_lowerAscii (s : String) : lowerAscii (lowerAscii s) = lowerAscii s := by
  rw [← String.toList_inj, toList_lowerAscii, toList_lowerAscii, map_toLower_map_toLower]

theorem trimStart_map_toLower (cs : List Char) :
    trimStart (cs.map Char.toLower) = (trimStart cs).map Char.toLower := by
  have hblank : isBlank ∘ Char.toLower = isBlank := funext isBlank_toLower
  rw [trimStart, List.dropWhile_map, hblank, trimStart]

theorem trim_map_toLower (cs : List Char) :
    trim (cs.map Char.toLower) = (trim cs).map Char.toLower := by
  have hend : ∀ ds : List Char, trimEnd ds = (trimStart ds.reverse).reverse := fun _ => rfl
  rw [trim, trimStart_map_toLower, hend, ← List.map_reverse, trimStart_map_toLower,
    ← List.map_reverse, ← hend, trim]

theorem IsTrimmed.map_toLower {cs : List Char} (h : IsTrimmed cs) :
    IsTrimmed (cs.map Char.toLower) := by
  constructor
  · simpa only [List.head?_map, Option.any_map, isBlank_toLower] using h.1
  · simpa only [List.getLast?_map, Option.any_map, isBlank_toLower] using h.2

/-! ### Equality up to case -/

theorem isUpper_iff : c.isUpper = true ↔ 65 ≤ c.toNat ∧ c.toNat ≤ 90 := by
  simp only [Char.isUpper, decide_eq_true_eq, ge_iff_le, UInt32.le_iff_toNat_le]
  rfl

theorem toNat_toLower (c : Char) :
    c.toLower.toNat = if c.isUpper then c.toNat + 32 else c.toNat := by
  split
  · rename_i hupper
    have hcode := isUpper_iff.mp hupper
    rw [Char.toLower_eq_of_isUpper hupper, Char.toNat_ofNat, if_pos (.inl (by omega))]
  · rename_i hother
    rw [Char.toLower_eq_of_not_isUpper hother]

/-- One character, or the capital and the small form of an ASCII letter. -/
def SameLetter (c d : Char) : Prop :=
  c = d ∨ (c.isUpper = true ∧ d.toNat = c.toNat + 32) ∨ (d.isUpper = true ∧ c.toNat = d.toNat + 32)

/-- Two texts whose characters differ in the case of ASCII letters only. -/
def SameWord (a b : String) : Prop := List.Forall₂ SameLetter a.toList b.toList

theorem toLower_eq_toLower_iff : c.toLower = d.toLower ↔ SameLetter c d := by
  rw [← Char.toNat_inj, toNat_toLower, toNat_toLower, SameLetter, ← Char.toNat_inj]
  simp only [isUpper_iff]
  split <;> split <;> omega

theorem eqIgnoringCase_iff_sameWord (a b : String) : eqIgnoringCase a b = true ↔ SameWord a b := by
  rw [eqIgnoringCase_iff, ← String.toList_inj, toList_lowerAscii, toList_lowerAscii,
    ← List.forall₂_eq_eq_eq, List.forall₂_map_left_iff, List.forall₂_map_right_iff]
  simp only [toLower_eq_toLower_iff]
  rfl

end SqlResolution.Text
