import SqlResolution.Proofs.Value.ArrayText

/-!
# Shapes of arrays

An array is made of a shape where the product of its dimensions and the number of values agree as
64-bit words, and its type counts the dimensions in a byte. So shapes are checked exactly but for
those whose product differs from the number of values by a multiple of `2 ^ 64`, and for those of
256 dimensions or more.
-/
namespace SqlResolution.Value

/-- The number of values that a shape asks for. -/
def cells (shape : List UInt32) : Nat := (shape.map UInt32.toNat).prod

theorem isSome_withShape?_iff (element : TypeTag) (shape : List UInt32) (values : List Value) :
    (withShape? element shape values).isSome = true ↔
      cells shape % 2 ^ 64 = values.length % 2 ^ 64 := by
  have hvolume : volume shape = UInt64.ofNat values.length ↔
      cells shape % 2 ^ 64 = values.length % 2 ^ 64 := by
    rw [volume_eq, ← UInt64.toNat_inj, UInt64.toNat_ofNat', UInt64.toNat_ofNat', cells]
  rw [Option.isSome_iff_exists, ← hvolume]
  simp only [withShape?_eq_some_iff, exists_and_left, exists_eq, and_true]

/-- A shape is checked exactly: an array is made of it where it asks for as many values as there
are, and the type of the array has a dimension for each of the shape. -/
structure ChecksShape (element : TypeTag) (shape : List UInt32) (values : List Value) : Prop where
  made : (withShape? element shape values).isSome = true ↔ cells shape = values.length
  dims : ∀ v, withShape? element shape values = some v →
    ∃ type, v.arrayType? = some type ∧ type.element = element ∧ type.dims = shape.length

/-- A shape is checked exactly unless the words of its product and of the number of values are the
same while the numbers are not, or while a byte does not hold the number of dimensions. -/
theorem checksShape_iff (element : TypeTag) (shape : List UInt32) (values : List Value) :
    ChecksShape element shape values ↔
      (cells shape % 2 ^ 64 = values.length % 2 ^ 64 →
        cells shape = values.length ∧ shape.length < 256) := by
  have hmade := isSome_withShape?_iff element shape values
  constructor
  · intro h hsame
    refine ⟨h.made.mp (hmade.mpr hsame), ?_⟩
    obtain ⟨v, hv⟩ := Option.isSome_iff_exists.mp (hmade.mpr hsame)
    obtain ⟨type, htype, -, hdims⟩ := h.dims v hv
    obtain ⟨-, rfl⟩ := (withShape?_eq_some_iff element shape values v).mp hv
    cases htype
    have hbyte : shape.length % 256 = shape.length := hdims
    omega
  · intro h
    refine ⟨hmade.trans ⟨fun hsame => (h hsame).1, fun heq => heq ▸ rfl⟩, fun v hv => ?_⟩
    obtain ⟨-, hlt⟩ := h (hmade.mp (Option.isSome_iff_exists.mpr ⟨v, hv⟩))
    obtain ⟨-, rfl⟩ := (withShape?_eq_some_iff element shape values v).mp hv
    exact ⟨_, rfl, rfl, Nat.mod_eq_of_lt hlt⟩

/-- An array of one value in 256 dimensions has a type of none, and an array without values is made
of a shape that asks for `2 ^ 64`. -/
theorem not_checksShape_of_wrap :
    ¬ChecksShape .double (List.replicate 256 1) [.double 1] ∧
      ¬ChecksShape .double [65536, 65536, 65536, 65536] [] := by
  rw [checksShape_iff, checksShape_iff]
  constructor
  · intro h
    have hdims : (List.replicate 256 (1 : UInt32)).length < 256 := (h (by decide +kernel)).2
    rw [List.length_replicate] at hdims
    omega
  · intro h
    have hcells : cells [65536, 65536, 65536, 65536] = 0 := (h (by decide +kernel)).1
    revert hcells
    decide +kernel

end SqlResolution.Value
