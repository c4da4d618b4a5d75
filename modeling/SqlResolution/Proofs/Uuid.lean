import SqlResolution.Proofs.Text.Hex
import SqlResolution.Proofs.Text.Number
import SqlResolution.Uuid

/-!
# UUIDs and their texts

The words of a UUID are its groups of digits, so a UUID has one text. The text reads as the UUID. A
text with a blank in it reads as none, so trimming a text first makes a difference where a UUID
stands between blanks.
-/
namespace SqlResolution.Uuid

open Text

-- Powers are the core ones, and sums start from the core zero, also where other instances are in
-- scope.
attribute [local instance (high)] instPowNat Zero.ofOfNat0

/-! ### Groups -/

/-- Groups and the hyphens between them. -/
theorem length_hyphenate {ns : List Nat} {cs : List Char} (hne : ns ≠ [])
    (h : cs.length = ns.sum) : (hyphenate ns cs).length + 1 = ns.sum + ns.length := by
  induction ns, cs using hyphenate.induct with
  | case1 cs => exact absurd rfl hne
  | case2 n cs =>
    have hlength : cs.length = n := by simpa using h
    simp [hyphenate, hlength]
  | case3 n ns cs hmore ih =>
    have hns : ns ≠ [] := hmore
    rw [List.sum_cons] at h
    have hrest := ih hns (by rw [List.length_drop]; omega)
    rw [hyphenate.eq_3 _ _ _ hmore]
    simp only [List.length_append, List.length_take, List.length_cons, List.sum_cons]
    omega

/-- Hyphens that are put between groups are taken out again. -/
theorem dehyphenate?_hyphenate {ns : List Nat} {cs : List Char} (hne : ns ≠ [])
    (h : cs.length = ns.sum) : dehyphenate? ns (hyphenate ns cs) = some cs := by
  induction ns, cs using hyphenate.induct with
  | case1 cs => exact absurd rfl hne
  | case2 n cs =>
    have hlength : cs.length = n := by simpa using h
    simp [hyphenate, dehyphenate?, ← hlength]
  | case3 n ns cs hmore ih =>
    have hns : ns ≠ [] := hmore
    rw [List.sum_cons] at h
    have hrest := ih hns (by rw [List.length_drop]; omega)
    have hgroup : (cs.take n).length = n := by
      rw [List.length_take]
      omega
    rw [hyphenate.eq_3 _ _ _ hmore, dehyphenate?.eq_3 _ _ _ hmore, List.drop_left' hgroup]
    simp only [hrest, Option.map_some, List.take_left' hgroup, List.take_append_drop]

theorem mem_hyphenate {ns : List Nat} {cs : List Char} {c : Char} (h : c ∈ hyphenate ns cs) :
    c ∈ cs ∨ c = '-' := by
  induction ns, cs using hyphenate.induct with
  | case1 cs => cases h
  | case2 n cs => exact .inl (List.mem_of_mem_take h)
  | case3 n ns cs hmore ih =>
    rw [hyphenate.eq_3 _ _ _ hmore] at h
    obtain hgroup | hrest := List.mem_append.mp h
    · exact .inl (List.mem_of_mem_take hgroup)
    · obtain rfl | hrest := List.mem_cons.mp hrest
      · exact .inr rfl
      · exact (ih hrest).imp_left List.mem_of_mem_drop

/-! ### Words -/

/-- A word that holds the digits of a width, cut out of a number. -/
theorem hexPadded_word {width n word : Nat} (hwidth : 0 < width) (hword : word = n % 16 ^ width) :
    hexPadded width word = hexFixed width n := by
  have hlt : word < 16 ^ width := hword ▸ Nat.mod_lt n (Nat.pow_pos (by decide))
  rw [hexPadded_eq_hexFixed hwidth hlt, hword, hexFixed_mod]

/-- The digits of a number in each of its groups. -/
def groupDigits : List Nat → Nat → List (List Char)
  | [], _ => []
  | width :: widths, n => hexFixed width (n / 16 ^ widths.sum) :: groupDigits widths n

theorem hyphenate_hexFixed (widths : List Nat) (n : Nat) :
    hyphenate widths (hexFixed widths.sum n) = ['-'].intercalate (groupDigits widths n) := by
  induction widths with
  | nil => rfl
  | cons width widths ih =>
    obtain _ | ⟨next, widths⟩ := widths
    · have hone : (hexFixed width n).length ≤ width := Nat.le_of_eq (length_hexFixed ..)
      simp only [hyphenate, List.take_of_length_le hone, groupDigits, List.intercalate_singleton,
        List.sum_cons, List.sum_nil, Nat.pow_zero, Nat.div_one, Nat.add_zero]
    · have hgroup := length_hexFixed width (n / 16 ^ (next :: widths).sum)
      rw [groupDigits] at ih
      rw [groupDigits, groupDigits, List.intercalate_cons_cons, ← ih,
        hyphenate.eq_3 _ _ _ (List.cons_ne_nil next widths), List.sum_cons, hexFixed_add,
        List.take_left' hgroup, List.drop_left' hgroup, List.append_assoc]
      rfl

/-- The words are the groups of digits. -/
theorem words_eq (u : BitVec 128) : words u = groupDigits groups u.toNat := by
  have hshifted : ∀ width places : Nat, 0 < width →
      hexPadded width ((u >>> (4 * places)).setWidth (4 * width)).toNat =
        hexFixed width (u.toNat / 16 ^ places) := by
    intro width places hwidth
    refine hexPadded_word hwidth ?_
    rw [BitVec.toNat_setWidth, BitVec.toNat_ushiftRight, Nat.shiftRight_eq_div_pow, Nat.pow_mul,
      Nat.pow_mul]
  have hmasked : hexPadded 12 ((u &&& 0xffffffffffff#128).setWidth 64).toNat =
      hexFixed 12 (u.toNat / 16 ^ 0) := by
    refine hexPadded_word (by decide) ?_
    have hmask : (0xffffffffffff#128).toNat = 2 ^ (48 : Nat) - 1 := rfl
    rw [BitVec.toNat_setWidth, BitVec.toNat_and, hmask, Nat.and_two_pow_sub_one_eq_mod]
    omega
  have hgroups : groupDigits groups u.toNat = [hexFixed 8 (u.toNat / 16 ^ 24),
      hexFixed 4 (u.toNat / 16 ^ 20), hexFixed 4 (u.toNat / 16 ^ 16),
      hexFixed 4 (u.toNat / 16 ^ 12), hexFixed 12 (u.toNat / 16 ^ 0)] := rfl
  rw [words, hgroups, hmasked, ← hshifted 8 24 (by decide), ← hshifted 4 20 (by decide),
    ← hshifted 4 16 (by decide), ← hshifted 4 12 (by decide)]

/-- A UUID has one text, whether its words are written or its digits are cut into groups. -/
theorem wordText_eq (u : BitVec 128) : wordText u = text u := by
  have hdigits := hyphenate_hexFixed groups u.toNat
  rw [wordText, text, words_eq, ← hdigits]
  rfl
/-! ### Reading -/

theorem isBlank_of_mem_hexFixed {width n : Nat} {c : Char} (h : c ∈ hexFixed width n) :
    isBlank c = false := by
  induction width generalizing n with
  | zero => cases h
  | succ width ih =>
    obtain hmore | hlast := List.mem_append.mp h
    · exact ih hmore
    · have hdigits : ∀ k < 16, isBlank (Nat.digitChar k) = false := by decide
      rw [List.mem_singleton.mp hlast]
      exact hdigits (n % 16) (Nat.mod_lt n (by decide))

theorem trim_text (u : BitVec 128) : trim (text u).toList = (text u).toList := by
  refine IsTrimmed.trim (isTrimmed_of_forall fun c hc => ?_)
  rw [text, String.toList_ofList] at hc
  obtain hdigit | rfl := mem_hyphenate hc
  · exact isBlank_of_mem_hexFixed hdigit
  · decide

theorem parse?_text (u : BitVec 128) : parse? (text u) = some u := by
  have hdigits : (hexFixed 32 u.toNat).length = groups.sum := length_hexFixed 32 u.toNat
  have hlength := length_hyphenate (by decide) hdigits
  have htext : digits? (text u).toList = some (hexFixed 32 u.toNat) := by
    have hcount : (hyphenate groups (hexFixed 32 u.toNat)).length = 36 := Nat.succ.inj hlength
    rw [text, String.toList_ofList, digits?, hcount, if_neg (by decide), if_pos (by decide)]
    exact dehyphenate?_hyphenate (by decide) hdigits
  have hnumber : readHex? (hexFixed 32 u.toNat) = some u.toNat := readHex?_hexFixed u.isLt
  unfold parse?
  rw [htext]
  simp only [Option.bind_eq_bind, Option.bind_some, hnumber, Option.pure_def, BitVec.ofNat_toNat,
    BitVec.setWidth_eq]

/-- Hyphens are all that is taken out of groups. -/
theorem mem_of_dehyphenate? {ns : List Nat} {cs ds : List Char}
    (h : dehyphenate? ns cs = some ds) : ∀ c ∈ cs, c ∈ ds ∨ c = '-' := by
  induction ns, cs using dehyphenate?.induct generalizing ds with
  | case1 cs => cases h
  | case2 n cs hlength =>
    rw [dehyphenate?, if_pos hlength] at h
    cases h
    exact fun c hc => .inl hc
  | case3 n cs hlength =>
    rw [dehyphenate?, if_neg hlength] at h
    cases h
  | case4 n ns cs hmore rest hrest ih =>
    rw [dehyphenate?.eq_3 _ _ _ hmore, hrest] at h
    obtain ⟨ds, hds, rfl⟩ := Option.map_eq_some_iff.mp h
    intro c hc
    rw [← List.take_append_drop n cs, hrest] at hc
    obtain hc | hc := List.mem_append.mp hc
    · exact .inl (List.mem_append_left _ hc)
    · obtain rfl | hc := List.mem_cons.mp hc
      · exact .inr rfl
      · exact (ih hds c hc).imp_left (List.mem_append_right _)
  | case5 n ns cs hmore hother =>
    rw [dehyphenate?.eq_3 _ _ _ hmore] at h
    split at h
    · rename_i rest hrest
      exact absurd hrest (hother rest)
    · cases h

/-- What stands around the digits of a UUID is not blank. -/
theorem isBlank_of_digits? {cs ds : List Char} (h : digits? cs = some ds)
    (hds : ∀ c ∈ ds, isBlank c = false) : ∀ c ∈ cs, isBlank c = false := by
  have hgroups : ∀ {cs}, dehyphenate? groups cs = some ds → ∀ c ∈ cs, isBlank c = false := by
    intro cs h c hc
    obtain hc | rfl := mem_of_dehyphenate? h c hc
    · exact hds c hc
    · decide
  unfold digits? at h
  split at h
  · cases h
    exact hds
  split at h
  · exact hgroups h
  split at h
  · simp only [Option.bind_eq_bind, Option.bind_eq_some_iff] at h
    obtain ⟨braced, hopening, bare, hending, h⟩ := h
    rw [eq_of_dropOpening? hopening, eq_of_dropEnding? hending]
    intro c hc
    simp only [List.mem_append, List.mem_singleton] at hc
    obtain rfl | hc | rfl := hc
    · decide
    · exact hgroups h c hc
    · decide
  split at h
  · rename_i hprefix
    intro c hc
    rw [← List.take_append_drop 9 cs] at hc
    obtain hc | hc := List.mem_append.mp hc
    · have hplain : "urn:uuid:".toList.any isBlank = false := by decide
      refine isBlank_of_toLower (Bool.eq_false_iff.mpr (List.any_eq_false.mp hplain _ ?_))
      rw [← eq_of_beq hprefix]
      exact List.mem_map_of_mem hc
    · exact hgroups h c hc
  · cases h

/-- A text with a blank in it is no UUID. -/
theorem isBlank_of_parse? {s : String} {u : BitVec 128} (h : parse? s = some u) :
    ∀ c ∈ s.toList, isBlank c = false := by
  simp only [parse?, Option.bind_eq_bind, Option.bind_eq_some_iff] at h
  obtain ⟨ds, hds, n, hn, -⟩ := h
  refine isBlank_of_digits? hds fun c hc => isBlank_of_isAlphanum ?_
  exact isAlphanum_of_foldlM_hexValue? hn c hc

/-- A text that is a UUID but for the blanks around it. -/
def IsPadded (s : String) : Prop :=
  trim s.toList ≠ s.toList ∧ (parse? (String.ofList (trim s.toList))).isSome = true

instance (s : String) : Decidable (IsPadded s) := inferInstanceAs (Decidable (_ ∧ _))

/-- Trimming a text makes a difference to what it reads as only where there is a UUID between
blanks. -/
theorem parse?_trim_iff (s : String) :
    parse? s = parse? (String.ofList (trim s.toList)) ↔ ¬IsPadded s := by
  by_cases htrim : trim s.toList = s.toList
  · simp [IsPadded, htrim]
  · have hnone : parse? s = none := by
      cases hs : parse? s with
      | none => rfl
      | some u => exact absurd (isTrimmed_of_forall (isBlank_of_parse? hs)).trim htrim
    rw [hnone, eq_comm, IsPadded, and_iff_right htrim, Option.not_isSome_iff_eq_none]

end SqlResolution.Uuid
