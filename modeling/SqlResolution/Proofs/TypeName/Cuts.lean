import SqlResolution.Proofs.TypeName.Dimensions

/-!
# Type names that are cut inside a character

A precision is cut one byte before its end. So reading it, and reading the name of a geohash, comes
to a cut inside a character exactly where the last character of the precision is longer than a byte.
-/
namespace SqlResolution

/-- The last character is longer than a byte. -/
def HasWideEnd (cs : List Char) : Prop := cs.getLast?.any (·.utf8Size != 1) = true

instance (cs : List Char) : Decidable (HasWideEnd cs) := inferInstanceAs (Decidable (_ = true))

variable {cs : List Char} {cut : CutInsideCharacter}

theorem hasWideEnd_concat {c : Char} : HasWideEnd (cs ++ [c]) ↔ c.utf8Size ≠ 1 := by
  rw [HasWideEnd, List.getLast?_concat, Option.any_some, bne_iff_ne]

theorem hasWideEnd_map_toLower : HasWideEnd (cs.map Char.toLower) ↔ HasWideEnd cs := by
  simp only [HasWideEnd, List.getLast?_map, Option.any_map, Text.utf8Size_toLower]

theorem readPrecision_eq_error_iff :
    readPrecision cs = .error cut ↔ HasWideEnd cs ∧ cut = ⟨String.ofList cs⟩ := by
  obtain rfl | ⟨front, c, rfl⟩ := cs.eq_nil_or_concat'
  · constructor
    · intro h
      cases h
    · rintro ⟨h, -⟩
      cases h
  · rw [hasWideEnd_concat]
    by_cases hsize : c.utf8Size = 1
    · rw [readPrecision_concat hsize]
      simp [hsize]
    · rw [readPrecision_concat_of_wide hsize]
      simp [hsize, eq_comm]

namespace ColumnType

theorem ofBaseName_eq_error_iff {base : List Char} : ofBaseName base = .error cut ↔
    ∃ precision, base = "geohash(".toList ++ precision ++ [')'] ∧ HasWideEnd precision ∧
      cut = ⟨String.ofList precision⟩ := by
  constructor
  · intro h
    unfold ofBaseName at h
    split at h
    · rename_i rest hopening
      split at h
      · rename_i precision hclosing
        refine ⟨precision, ?_, readPrecision_eq_error_iff.mp (Text.map_eq_error_iff.mp h)⟩
        rw [Text.eq_of_dropOpening? hopening, Text.eq_of_dropEnding? hclosing, List.append_assoc]
      · cases h
    · cases h
  · rintro ⟨precision, rfl, hprecision⟩
    rwa [ofBaseName_geohash, Text.map_eq_error_iff, readPrecision_eq_error_iff]

theorem ofParts_eq_error_iff {dims : Nat} {base : List Char} :
    ofParts dims base = .error cut ↔ dims ≤ 255 ∧ ofBaseName base = .error cut := by
  constructor
  · intro h
    unfold ofParts at h
    split at h
    · cases h
    · rename_i hmax
      split at h
      · cases h
      · exact ⟨Nat.not_lt.mp hmax, Text.map_eq_error_iff.mp h⟩
  · rintro ⟨hmax, hbase⟩
    have htext : base ≠ "string".toList ∧ base ≠ "text".toList := by
      constructor
      · rintro rfl
        cases hbase
      · rintro rfl
        cases hbase
    rwa [ofParts_eq hmax (.inr htext), Text.map_eq_error_iff]

/-- A name of a geohash, or of an array of them, whose precision ends in a character that is longer
than a byte. -/
def IsTorn (name precision : List Char) : Prop :=
  ∃ before opening after dims, name = before ++ (opening ++ precision ++ [')']) ++ after ∧
    before.all Text.isBlank = true ∧ opening.map Char.toLower = "geohash(".toList ∧
    HasWideEnd precision ∧ Brackets dims after ∧ dims ≤ 255

theorem parse_eq_error_iff {name : String} : parse name = .error cut ↔
    ∃ precision, IsTorn name.toList precision ∧
      cut = ⟨String.ofList (precision.map Char.toLower)⟩ := by
  constructor
  · intro h
    obtain ⟨before, base, after, dims, hname, hbefore, hafter, hparse⟩ := exists_parts name
    rw [hparse, ofParts_eq_error_iff, ofBaseName_eq_error_iff] at h
    obtain ⟨hmax, lower, hbase, hwide, rfl⟩ := h
    obtain ⟨front, closing, rfl, hfront, hclosing⟩ := List.map_eq_append_iff.mp hbase
    obtain ⟨opening, precision, rfl, hopening, rfl⟩ := List.map_eq_append_iff.mp hfront
    obtain ⟨c, rfl, hc⟩ := List.map_eq_singleton_iff.mp hclosing
    obtain rfl := (Text.toLower_eq_iff (by decide)).mp hc
    exact ⟨precision, ⟨before, opening, after, dims, hname, hbefore, hopening,
      hasWideEnd_map_toLower.mp hwide, hafter, hmax⟩, rfl⟩
  · rintro ⟨precision, ⟨before, opening, after, dims, hname, hbefore, hopening, hwide, hafter,
      hmax⟩, rfl⟩
    have hhead : (opening ++ precision ++ [')']).head?.any Text.isBlank = false := by
      obtain ⟨c, rest, rfl, hc, -⟩ := List.map_eq_cons_iff.mp hopening
      have hblank : Text.isBlank c.toLower = false := by
        rw [hc]
        decide
      rw [Text.isBlank_toLower] at hblank
      exact hblank
    rw [parse_of_parts hname hbefore (by simp) hhead (peelDimensions_closing _) hafter,
      ofParts_eq_error_iff, ofBaseName_eq_error_iff]
    refine ⟨hmax, precision.map Char.toLower, ?_, hasWideEnd_map_toLower.mpr hwide, rfl⟩
    rw [List.map_append, List.map_append, hopening]
    rfl

end ColumnType
end SqlResolution
