import SqlResolution.Text.Slice

/-!
# Cuts at byte offsets

A text can be cut at an offset exactly where a part of it before the offset is as long as the offset
says, so at each of the library's valid positions. Cuts around a part that is known to be there
give the part.
-/
namespace SqlResolution.Text

variable {c mark : Char} {cs before after : List Char} {i : Nat}

/-! ### Outcomes -/

section Outcome

variable {ε α β : Type} {x : Except ε α} {f : α → β}

theorem map_eq_ok_iff {b : β} : x.map f = .ok b ↔ ∃ a, x = .ok a ∧ f a = b := by
  cases x <;> simp [Except.map]

theorem map_eq_error_iff {e : ε} : x.map f = .error e ↔ x = .error e := by
  cases x <;> simp [Except.map]

end Outcome

/-! ### Lengths in bytes -/

@[simp] theorem byteLength_nil : byteLength [] = 0 := rfl

@[simp] theorem byteLength_cons (c : Char) (cs : List Char) :
    byteLength (c :: cs) = c.utf8Size + byteLength cs := rfl

@[simp] theorem byteLength_append (cs ds : List Char) :
    byteLength (cs ++ ds) = byteLength cs + byteLength ds := by
  induction cs with
  | nil => simp
  | cons c cs ih => rw [List.cons_append, byteLength_cons, byteLength_cons, ih, Nat.add_assoc]

theorem byteLength_le_of_prefix (h : before <+: cs) : byteLength before ≤ byteLength cs := by
  obtain ⟨after, rfl⟩ := h
  rw [byteLength_append]
  exact Nat.le_add_right _ _

theorem byteLength_toList (s : String) : byteLength s.toList = s.utf8ByteSize := by
  obtain ⟨cs, rfl⟩ : ∃ cs, s = String.ofList cs := ⟨s.toList, by simp⟩
  rw [String.toList_ofList]
  induction cs with
  | nil => simp
  | cons c cs ih =>
    have hsplit : String.ofList (c :: cs) = String.singleton c ++ String.ofList cs := by
      rw [String.singleton_eq_ofList, ← String.ofList_append, List.singleton_append]
    rw [byteLength_cons, ih, hsplit, String.utf8ByteSize_append, String.utf8ByteSize_singleton]

/-! ### Cuts -/

theorem splitAtOffset?_append (before after : List Char) :
    splitAtOffset? (byteLength before) (before ++ after) = some (before, after) := by
  induction before with
  | nil => cases after <;> rfl
  | cons c before ih =>
    obtain ⟨size, hsize⟩ := Nat.exists_eq_add_one.mpr c.utf8Size_pos
    have hoffset : byteLength (c :: before) = size + byteLength before + 1 := by
      rw [byteLength_cons, hsize]
      omega
    have hrest : size + byteLength before + 1 - c.utf8Size = byteLength before := by omega
    rw [hoffset, List.cons_append, splitAtOffset?, if_pos (by omega), hrest, ih]
    rfl

/-- A text is cut where a part of it ends. -/
theorem splitAtOffset?_eq_some_iff :
    splitAtOffset? i cs = some (before, after) ↔ cs = before ++ after ∧ byteLength before = i := by
  constructor
  · intro h
    induction i, cs using splitAtOffset?.induct generalizing before with
    | case1 cs =>
      rw [splitAtOffset?] at h
      cases h
      exact ⟨rfl, rfl⟩
    | case2 n => cases h
    | case3 n c cs hfits ih =>
      rw [splitAtOffset?, if_pos hfits] at h
      obtain ⟨⟨front, back⟩, hparts, heq⟩ := Option.map_eq_some_iff.mp h
      cases heq
      obtain ⟨rfl, hlength⟩ := ih hparts
      refine ⟨rfl, ?_⟩
      rw [byteLength_cons, hlength]
      omega
    | case4 n c cs hlong =>
      rw [splitAtOffset?, if_neg hlong] at h
      cases h
  · rintro ⟨rfl, rfl⟩
    exact splitAtOffset?_append before after

/-- The offsets at which a text can be cut are its valid positions. -/
theorem isSome_splitAtOffset?_iff (s : String) (i : Nat) :
    (splitAtOffset? i s.toList).isSome = true ↔ String.Pos.Raw.IsValid s ⟨i⟩ := by
  rw [String.Pos.Raw.isValid_iff_exists_append, Option.isSome_iff_exists]
  constructor
  · rintro ⟨⟨before, after⟩, h⟩
    obtain ⟨hs, rfl⟩ := splitAtOffset?_eq_some_iff.mp h
    refine ⟨String.ofList before, String.ofList after, ?_, ?_⟩
    · rw [← String.ofList_append, ← hs, String.ofList_toList]
    · have hend := byteLength_toList (String.ofList before)
      rw [String.toList_ofList] at hend
      rw [hend]
      rfl
  · rintro ⟨front, back, rfl, hend⟩
    obtain rfl : i = byteLength front.toList := by
      rw [byteLength_toList]
      exact congrArg String.Pos.Raw.byteIdx hend
    rw [String.toList_append, splitAtOffset?_append]
    exact ⟨_, rfl⟩

theorem cutAt_append (before after : List Char) :
    cutAt (byteLength before) (before ++ after) = .ok (before, after) := by
  rw [cutAt, splitAtOffset?_append]

theorem sliceTo_append (before after : List Char) :
    sliceTo (byteLength before) (before ++ after) = .ok before := by
  rw [sliceTo, cutAt_append]
  rfl

theorem sliceFrom_append (before after : List Char) :
    sliceFrom (byteLength before) (before ++ after) = .ok after := by
  rw [sliceFrom, cutAt_append]
  rfl

theorem slice_append (before between after : List Char) :
    slice (byteLength before) (byteLength (before ++ between)) (before ++ between ++ after) =
      .ok between := by
  rw [slice, sliceTo_append]
  exact sliceFrom_append before between

theorem offset?_append (h : mark ∉ before) (after : List Char) :
    offset? mark (before ++ mark :: after) = some (byteLength before) := by
  have hmark : ¬(mark != mark) = true := by simp
  rw [offset?, if_pos (by simp), List.takeWhile_append_of_pos (forall_bne_of_notMem h),
    List.takeWhile_cons, if_neg hmark, List.append_nil]

theorem offset?_of_notMem (h : mark ∉ cs) : offset? mark cs = none := if_neg h

/-- A text cannot be cut inside its last character. -/
theorem splitAtOffset?_concat_of_wide (cs : List Char) (h : c.utf8Size ≠ 1) :
    splitAtOffset? (byteLength (cs ++ [c]) - 1) (cs ++ [c]) = none := by
  rw [Option.eq_none_iff_forall_ne_some]
  rintro ⟨before, after⟩ hcut
  have hpos := c.utf8Size_pos
  obtain ⟨hsplit, hlength⟩ := splitAtOffset?_eq_some_iff.mp hcut
  have hprefix : before <+: cs ++ [c] := ⟨after, hsplit.symm⟩
  rw [byteLength_append, byteLength_cons, byteLength_nil] at hlength
  obtain rfl | hinside := List.prefix_concat_iff.mp hprefix
  · rw [byteLength_append, byteLength_cons, byteLength_nil] at hlength
    omega
  · have hle := byteLength_le_of_prefix hinside
    omega

/-- A text whose last character is one byte long is cut before it. -/
theorem splitAtOffset?_concat (cs : List Char) (h : c.utf8Size = 1) :
    splitAtOffset? (byteLength (cs ++ [c]) - 1) (cs ++ [c]) = some (cs, [c]) := by
  have hlength : byteLength (cs ++ [c]) - 1 = byteLength cs := by
    rw [byteLength_append, byteLength_cons, byteLength_nil]
    omega
  rw [hlength, splitAtOffset?_append]

end SqlResolution.Text
