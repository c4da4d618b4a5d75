import SqlResolution.Proofs.Evaluator.Conformance
import SqlResolution.Proofs.Value.RoundTrip
import SqlResolution.Value.Adapt

/-!
# Adapters and the values that they make

An adapter makes values of its target. Where there is also a cast between the types, it makes the
value that the cast makes, but for one difference: the cast takes the blanks off a text before it
reads a UUID, and the adapter does not. The text of a UUID has no blanks, and all of them read it.
-/
namespace SqlResolution

/-- Whether a value is a text that is a UUID but for the blanks around it. -/
def Value.IsPaddedUuid : Value → Prop
  | str s => Uuid.IsPadded s
  | _ => False

theorem concatenation_append (scales : TextScales) (vs ws : List Value) :
    concatenation scales (vs ++ ws) = concatenation scales vs ++ concatenation scales ws := by
  rw [concatenation, List.map_append, String.join_append]
  rfl

namespace Adapter

/-- Whether an adapter is for values of a type, and for a target. -/
def fits (source target : ColumnType) : Adapter → Bool
  | strToUuid | varcharToUuid => source.tag.isString && target.tag == .uuid
  | strToTimestamp | varcharToTimestamp => source.tag.isString && target.tag == .timestamp
  | strToDoubleArray => source.tag.isString && target.tag == .array && target.element == .double
  | strToGeohash | varcharToGeohash => source.tag.isString && target.isSizedGeohash
  | uuidToStr | uuidToVarchar => source.tag == .uuid && target.tag.isString
  | charToSymbol => source.tag == .char && target.tag == .symbol
  | geohashToGeohash =>
    source.tag.isGeohash && target.isSizedGeohash && decide (target.bits < source.bits)
  | intervalToStr => source.tag == .interval && target.tag.isString

variable {a : Adapter} {source target : ColumnType} {v : Value} {scales : TextScales}

theorem fits_of_adapterFor? (h : adapterFor? source target = some a) :
    a.fits source target = true := by
  unfold adapterFor? at h
  split at h <;> grind [fits, TypeTag.isString]

theorem apply_of_isNull (h : v.isNull = true) : a.apply source target v = .null := by
  cases v with
  | null | double _ | float _ => cases a <;> rfl
  | _ => cases h

/-- The adapters that read a geohash are those of text to geohashes of some bits. -/
theorem readsGeohash_iff (h : a.fits source target = true) :
    a.readsGeohash = true ↔ source.tag.isString = true ∧ target.isSizedGeohash = true := by
  have hdisjoint : source.tag.isString = true → source.tag.isGeohash = false := by
    cases source.tag <;> decide
  cases a <;> grind [fits, readsGeohash, ColumnType.isSizedGeohash, TypeTag.isString,
    TypeTag.isGeohash]

/-- What an adapter makes is of its target. -/
theorem conformsTo_apply (h : a.fits source target = true) (v : Value) :
    (a.apply source target v).conformsTo target = true := by
  unfold apply
  split <;> simp only [fits, Bool.and_eq_true, ColumnType.isSizedGeohash] at h
  case h_1 | h_2 | h_3 | h_4 =>
    refine Value.conformsTo_map_getD (fun _ => ?_) _
    exact h.2
  case h_5 text =>
    refine Value.conformsTo_getD fun w hw => ?_
    simp only [Value.DoubleArray.parse?, Option.bind_eq_bind, Option.bind_eq_some_iff] at hw
    obtain ⟨_, -, hw⟩ := hw
    split at hw
    · unfold Value.withShape? at hw
      split at hw
      · cases hw
        rw [Value.conformsTo_array_iff, eq_of_beq h.1.2, eq_of_beq h.2]
        exact ⟨rfl, rfl⟩
      · cases hw
    · cases hw
  case h_6 | h_7 =>
    refine Value.conformsTo_map_getD (fun _ => ?_) _
    exact h.2.1
  case h_8 | h_9 | h_12 => exact h.2
  case h_10 =>
    show target.tag.isString = true
    rw [eq_of_beq h.2]
    rfl
  case h_11 => exact h.1.2.1
  case h_13 => rfl

/-! ### Adapters and casts -/

theorem map_uuid_inj {u u' : Option (BitVec 128)}
    (h : (u.map Value.uuid).getD .null = (u'.map Value.uuid).getD .null) : u = u' := by
  cases u <;> cases u' <;> simp_all

/-- An adapter of text to UUIDs makes what the cast makes, but of a padded UUID. -/
theorem apply_eq_cast_uuid_iff (ha : a = strToUuid ∨ a = varcharToUuid) (s : String) :
    a.apply source target (.str s) = (Value.str s).cast scales .uuid ↔ ¬Uuid.IsPadded s := by
  have hadapter : a.apply source target (.str s) =
      ((Uuid.parse? s).map Value.uuid).getD .null := by
    obtain rfl | rfl := ha <;> rfl
  have hcast : (Value.str s).cast scales .uuid =
      ((Uuid.parse? (String.ofList (Text.trim s.toList))).map Value.uuid).getD .null := rfl
  rw [← Uuid.parse?_trim_iff, hadapter, hcast]
  exact ⟨map_uuid_inj, fun h => by rw [h]⟩

theorem mem_textTypes {t : TypeTag} (h : t.isString = true) : t ∈ Value.textTypes := by
  cases t <;> first | decide | cases h

/-- Between the types of a cast, an adapter makes of a value what the cast makes, unless it is to
make a UUID of a padded text. -/
theorem apply_eq_cast_iff (h : a.fits source target = true) (hsource : source.tag ≠ .interval)
    (harray : target.tag ≠ .array) (hgeohash : target.tag.isGeohash = false)
    (hv : v.conformsTo source = true) :
    a.apply source target v = v.cast scales target.tag ↔
      ¬(target.tag = .uuid ∧ v.IsPaddedUuid) := by
  have hnull : a.apply source target .null = Value.null.cast scales target.tag := by
    rw [apply_of_isNull rfl, Value.cast_null]
  cases a <;> simp only [fits, Bool.and_eq_true, beq_iff_eq, ColumnType.isSizedGeohash] at h
  case strToUuid | varcharToUuid =>
    obtain rfl | ⟨s, rfl⟩ := str_or_null h.1 hv
    · simp [hnull, Value.IsPaddedUuid]
    · rw [h.2, apply_eq_cast_uuid_iff (by simp)]
      simp [Value.IsPaddedUuid]
  case strToTimestamp | varcharToTimestamp =>
    obtain rfl | ⟨s, rfl⟩ := str_or_null h.1 hv
    · simp [hnull, Value.IsPaddedUuid]
    · rw [h.2]
      exact iff_of_true rfl (by simp)
  case uuidToStr | uuidToVarchar =>
    refine iff_of_true ?_ fun hpadded => by simp [hpadded.1, TypeTag.isString] at h
    cases v with
    | null => exact hnull
    | uuid u =>
      rw [Value.cast_text (mem_textTypes h.2) rfl rfl, Value.text_uuid]
      rfl
    | _ => simp [Value.conformsTo, h.1, TypeTag.isString, TypeTag.isGeohash] at hv
  case charToSymbol =>
    refine iff_of_true ?_ fun hpadded => by simp [hpadded.1] at h
    cases v with
    | null => exact hnull
    | char c => exact (Value.cast_text (by rw [h.2]; decide) rfl rfl).symm
    | _ => simp [Value.conformsTo, h.1, TypeTag.isString, TypeTag.isGeohash] at hv
  case strToDoubleArray => exact absurd h.1.2 harray
  case strToGeohash | varcharToGeohash =>
    rw [hgeohash] at h
    exact absurd h.2.1 Bool.false_ne_true
  case geohashToGeohash =>
    rw [hgeohash] at h
    exact absurd h.1.2.1 Bool.false_ne_true
  case intervalToStr => exact absurd h.1 hsource

/-! ### UUIDs as texts -/

theorem exists_adapterFor?_uuid (h : source.tag.isString = true) :
    ∃ a, adapterFor? source .uuid = some a ∧ (a = strToUuid ∨ a = varcharToUuid) := by
  cases htag : source.tag <;> rw [htag] at h
  case string | symbol => exact ⟨strToUuid, by simp [adapterFor?, htag], .inl rfl⟩
  case varchar => exact ⟨varcharToUuid, by simp [adapterFor?, htag], .inr rfl⟩
  all_goals cases h

end Adapter
end SqlResolution
