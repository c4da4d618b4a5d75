import SqlResolution.Proofs.TypeName.Dimensions

/-!
# Type names as they are displayed

The types that a text can name are the named ones, and what is displayed of one names it. Neither
the case of letters nor blanks around the displayed text matter. So a type that was read is read
again from its display.
-/
namespace SqlResolution

theorem Text.readNatUpTo?_toDigits {n hi : Nat} (h : n ≤ hi) :
    readNatUpTo? hi (Nat.toDigits 10 n) = some n := by
  have hplus : ∀ rest, Nat.toDigits 10 n ≠ '+' :: rest := by
    intro rest hrest
    have hdigit : '+'.isDigit = true :=
      isDigit_of_mem_toDigits (hrest ▸ List.mem_cons_self : '+' ∈ Nat.toDigits 10 n)
    cases hdigit
  rw [readNatUpTo?.eq_2 hi _ hplus, readNat?_toDigits]
  simpa using h

namespace ColumnType

/-! ### Geohashes -/

/-- The display of a geohash: a number of units of precision. -/
theorem display_geohash {bits : Nat} (hpos : 1 ≤ bits) (hmax : bits ≤ maxGeohashBits) :
    ∃ count size unit, unitBits? [unit] = some size ∧ unit.toLower = unit ∧ unit.utf8Size = 1 ∧
      count * size = bits ∧ (geohash bits).display.toList =
        "GEOHASH(".toList ++ (Nat.toDigits 10 count ++ [unit]) ++ [')'] := by
  have hsized : (geohash bits).isSizedGeohash = true := by
    have hgeohash : (geohash bits).tag.isGeohash = true := isGeohash_geohash bits
    rw [isSizedGeohash, hgeohash, bits_geohash_of_le hmax]
    exact decide_eq_true hpos
  rw [display, if_pos hsized, bits_geohash_of_le hmax]
  by_cases hwhole : bits % 5 = 0
  · refine ⟨bits / 5, 5, 'c', rfl, rfl, rfl, Nat.div_mul_cancel (Nat.dvd_of_mod_eq_zero hwhole), ?_⟩
    rw [if_pos (beq_iff_eq.mpr hwhole)]
    simp [Nat.repr]
  · refine ⟨bits, 1, 'b', rfl, rfl, rfl, Nat.mul_one bits, ?_⟩
    rw [if_neg (by rwa [beq_iff_eq])]
    simp [Nat.repr]

theorem precision?_toDigits {count size : Nat} {unit : Char} (hunit : unitBits? [unit] = some size)
    (hpos : 1 ≤ count * size) (hmax : count * size ≤ maxGeohashBits) :
    precision? (Nat.toDigits 10 count) [unit] = some (count * size) := by
  have hsize : 0 < size := Nat.pos_of_mul_pos_left hpos
  have hcount : count ≤ 255 :=
    (Nat.le_mul_of_pos_right count hsize).trans (hmax.trans (by decide))
  rw [precision?, Text.readNatUpTo?_toDigits hcount, hunit]
  simp [hpos, hmax]

theorem parse_display_geohash {bits : Nat} (hpos : 1 ≤ bits) (hmax : bits ≤ maxGeohashBits) :
    parse (geohash bits).display = .ok (some (geohash bits)) := by
  obtain ⟨count, size, unit, hunit, hunitLower, hone, rfl, hdisplay⟩ := display_geohash hpos hmax
  have hdigits : (Nat.toDigits 10 count).map Char.toLower = Nat.toDigits 10 count := by
    refine (List.map_congr_left fun c hc => ?_).trans (List.map_id' _)
    exact Text.toLower_of_not_isAlpha (Text.isAlpha_of_isDigit (Text.isDigit_of_mem_toDigits hc))
  have hname : (geohash (count * size)).display.toList =
      [] ++ ("GEOHASH(".toList ++ (Nat.toDigits 10 count ++ [unit]) ++ [')']) ++ [] := by
    rw [hdisplay, List.nil_append, List.append_nil]
  have hparts := parse_of_parts hname rfl (by simp) rfl (peelDimensions_closing _) (.blanks rfl)
  have hlower : ("GEOHASH(".toList ++ (Nat.toDigits 10 count ++ [unit]) ++ [')']).map Char.toLower =
      "geohash(".toList ++ (Nat.toDigits 10 count ++ [unit]) ++ [')'] := by
    simp only [List.map_append, hdigits, List.map_cons, List.map_nil, hunitLower]
    rfl
  have hprecision : readPrecision (Nat.toDigits 10 count ++ [unit]) = .ok (some (count * size)) := by
    rw [readPrecision_concat hone, precision?_toDigits hunit hpos hmax]
  rw [hparts, hlower, ofParts_eq (Nat.zero_le 255) (.inl rfl), ofBaseName_geohash, hprecision]
  rfl

/-! ### Arrays -/

theorem toList_display_array (element : TypeTag) (dims : Nat) :
    (array element dims).display.toList =
      element.name.toList ++ (String.join (List.replicate dims "[]")).toList :=
  String.toList_append

theorem brackets_replicate (dims : Nat) :
    Brackets dims (String.join (List.replicate dims "[]")).toList := by
  induction dims with
  | zero => exact .blanks rfl
  | succ dims ih =>
    have hlast : (String.join (List.replicate (dims + 1) "[]")).toList =
        (String.join (List.replicate dims "[]")).toList ++ ['[', ']'] := by
      rw [List.replicate_succ', String.join_append, String.toList_append]
      rfl
    rw [hlast]
    exact ih.pair rfl

/-- The elements of arrays are named by their names. -/
theorem ofBaseName_element {element : TypeTag}
    (h : (element.isNumeric || element == .boolean) = true) :
    ofBaseName (element.name.toList.map Char.toLower) = .ok (some (of element)) ∧
      element.name.toList.map Char.toLower ≠ "string".toList ∧
      element.name.toList.map Char.toLower ≠ "text".toList := by
  have hall : ∀ element ∈ TypeTag.all, (element.isNumeric || element == .boolean) = true →
      ofBaseName (element.name.toList.map Char.toLower) = .ok (some (of element)) ∧
        element.name.toList.map Char.toLower ≠ "string".toList ∧
        element.name.toList.map Char.toLower ≠ "text".toList := by decide
  exact hall element element.mem_all h

theorem parse_display_array {element : TypeTag}
    (h : (element.isNumeric || element == .boolean) = true) {dims : Nat} (hpos : 1 ≤ dims)
    (hmax : dims ≤ 255) : parse (array element dims).display = .ok (some (array element dims)) := by
  have hname : (array element dims).display.toList =
      [] ++ element.name.toList ++ (String.join (List.replicate dims "[]")).toList :=
    toList_display_array element dims
  obtain ⟨hbase, htext⟩ := ofBaseName_element h
  have hall : ∀ element ∈ TypeTag.all, (element.isNumeric || element == .boolean) = true →
      element.name.toList ≠ [] ∧ element.name.toList.head?.any Text.isBlank = false ∧
        peelDimensions element.name.toList.reverse = (0, element.name.toList.reverse) := by decide
  obtain ⟨hne, hhead, hpeeled⟩ := hall element element.mem_all h
  have hparts := parse_of_parts hname rfl hne hhead hpeeled (brackets_replicate dims)
  have hdims : (of element).withDims? dims = some (array element dims) := by
    rw [withDims?, if_neg (by simp; omega), tag_of, if_pos h]
  rw [hparts, ofParts_eq hmax (.inr htext), hbase, ← hdims]
  rfl

/-! ### Every type that a text can name -/

theorem parse_display_of_isNamed {t : ColumnType} (h : t.IsNamed) :
    parse t.display = .ok (some t) := by
  cases h with
  | @tag name tag h =>
    have hall : ∀ entry ∈ TypeTag.names, parse (of entry.2).display = .ok (some (of entry.2)) := by
      decide
    exact hall (name, tag) h
  | geohash hpos hmax => exact parse_display_geohash hpos hmax
  | stringArray => decide
  | array h hpos hmax => exact parse_display_array h hpos hmax

/-- The types that a text can name are the named ones. A type that was read from a text is read again
from its display, in any case and with blanks around it. -/
theorem parse_display_spaced (t : ColumnType) :
    ((∃ text, parse text = .ok (some t)) ↔ t.IsNamed) ∧
      ∀ text, parse text = .ok (some t) → ∀ (name : String) (before after : List Char),
        Text.eqIgnoringCase name t.display = true → before.all Text.isBlank = true →
          after.all Text.isBlank = true →
            parse (String.ofList (before ++ name.toList ++ after)) = .ok (some t) := by
  refine ⟨⟨fun ⟨text, htext⟩ => isNamed_of_parse htext, fun h => ?_⟩, ?_⟩
  · exact ⟨t.display, parse_display_of_isNamed h⟩
  · intro text htext name before after hname hbefore hafter
    rw [parse_of_blanks hbefore hafter, parse_of_eqIgnoringCase hname,
      parse_display_of_isNamed (isNamed_of_parse htext)]

theorem parse_display_spaced_mixed :
    (parse "GeoHash(045b)" = .ok (some (geohash 45)) ∧
      Text.eqIgnoringCase "geoHASH(9C)" (geohash 45).display = true ∧
      parse (String.ofList (['\t'] ++ "geoHASH(9C)".toList ++ [' ', '\n'])) =
        .ok (some (geohash 45))) ∧
    (parse "double [] []" = .ok (some (array .double 2)) ∧
      Text.eqIgnoringCase "Double[][]" (array .double 2).display = true ∧
      parse (String.ofList ([' '] ++ "Double[][]".toList ++ [])) =
        .ok (some (array .double 2))) ∧
    (parse "text []" = .ok (some arrayString) ∧
      Text.eqIgnoringCase "String[]" arrayString.display = true ∧
      parse (String.ofList ([] ++ "String[]".toList ++ [' '])) = .ok (some arrayString)) :=
  ⟨⟨by decide, by decide, (parse_display_spaced (geohash 45)).2 "GeoHash(045b)" (by decide)
      "geoHASH(9C)" _ _ (by decide) rfl rfl⟩,
    ⟨by decide, by decide, (parse_display_spaced (array .double 2)).2 "double [] []" (by decide)
      "Double[][]" _ _ (by decide) rfl rfl⟩,
    by decide, by decide, (parse_display_spaced arrayString).2 "text []" (by decide) "String[]" _ _
      (by decide) rfl rfl⟩

end ColumnType
end SqlResolution
