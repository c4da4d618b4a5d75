import SqlResolution.ColumnType.Parse
import SqlResolution.Proofs.Text.Digits
import SqlResolution.Proofs.Text.Slice

/-!
# Types that are written

A token that names a type names one without parameters of its own, a geohash, or an array of numbers
or booleans. So apart from geohashes and arrays a type that is written is told by its tag, and none
is the type of a variable that was not given one yet.
-/
namespace SqlResolution

theorem mem_of_lookup {α β : Type} [BEq α] [LawfulBEq α] {entries : List (α × β)} {key : α}
    {value : β} (h : entries.lookup key = some value) : (key, value) ∈ entries := by
  obtain ⟨before, after, rfl, -⟩ := List.lookup_eq_some_iff.mp h
  exact List.mem_append_right before List.mem_cons_self

theorem TypeTag.ne_undefined_of_mem_names {name : String} {tag : TypeTag}
    (h : (name, tag) ∈ names) : tag ≠ .undefined := by
  have hnames : ∀ entry ∈ names, entry.2 ≠ .undefined := by decide
  exact hnames (name, tag) h

namespace ColumnType

/-- The types that a text can name. -/
inductive IsNamed : ColumnType → Prop
  | tag {name : String} {tag : TypeTag} (h : (name, tag) ∈ TypeTag.names) : IsNamed (of tag)
  | geohash {bits : Nat} (hpos : 1 ≤ bits) (hmax : bits ≤ maxGeohashBits) : IsNamed (geohash bits)
  | stringArray : IsNamed arrayString
  | array {element : TypeTag} {dims : Nat} (h : (element.isNumeric || element == .boolean) = true)
      (hpos : 1 ≤ dims) (hmax : dims ≤ 255) : IsNamed (array element dims)

theorem bounds_of_precision? {digits unit : List Char} {bits : Nat}
    (h : precision? digits unit = some bits) : 1 ≤ bits ∧ bits ≤ maxGeohashBits := by
  simp only [precision?, Option.bind_eq_bind, Option.bind_eq_some_iff] at h
  obtain ⟨count, -, size, -, hbits⟩ := h
  split at hbits
  · rename_i hbounds
    cases hbits
    simpa using hbounds
  · cases hbits

/-- A precision that is read is one that a geohash has. -/
theorem bounds_of_readPrecision {cs : List Char} {bits : Nat}
    (h : readPrecision cs = .ok (some bits)) : 1 ≤ bits ∧ bits ≤ maxGeohashBits := by
  unfold readPrecision at h
  split at h
  · cases h
  · obtain ⟨_, -, hprecision⟩ := Text.map_eq_ok_iff.mp h
    exact bounds_of_precision? hprecision

theorem isNamed_of_ofBaseName {name : List Char} {t : ColumnType}
    (h : ofBaseName name = .ok (some t)) : t.IsNamed := by
  unfold ofBaseName at h
  split at h
  · split at h
    · obtain ⟨bits?, hbits, hsome⟩ := Text.map_eq_ok_iff.mp h
      obtain ⟨bits, rfl, rfl⟩ := Option.map_eq_some_iff.mp hsome
      obtain ⟨hpos, hmax⟩ := bounds_of_readPrecision hbits
      exact .geohash hpos hmax
    · cases h
  · obtain ⟨tag, htag, rfl⟩ := Option.map_eq_some_iff.mp (Except.ok.inj h)
    exact .tag (mem_of_lookup htag)

/-- Taking brackets off leaves the front of a name. -/
theorem peelDimensions_suffix (cs : List Char) : (peelDimensions cs).2 <:+ cs := by
  fun_induction peelDimensions cs with
  | case1 rest n base hpeel ih =>
    rw [hpeel] at ih
    exact ih.trans ((List.suffix_cons _ _).trans (List.suffix_cons _ _))
  | case2 c cs hblank _ ih => exact ih.trans (List.suffix_cons _ _)
  | case3 => exact List.suffix_refl _
  | case4 => exact List.suffix_refl []

theorem trim_isPrefix_cons {c : Char} (h : Text.isBlank c = false) (cs : List Char) :
    Text.trim (c :: cs) <+: c :: cs := by
  have hstart : Text.trimStart (c :: cs) = c :: cs := List.dropWhile_cons_of_neg (by simp [h])
  have hend := (List.dropWhile_suffix Text.isBlank (l := (c :: cs).reverse)).reverse
  rw [List.reverse_reverse] at hend
  rw [Text.trim, hstart]
  exact hend

/-- Every name starts with a letter. -/
theorem ofBaseName_of_head {base : List Char} (h : ∀ c ∈ base.head?, c.isAlpha = false) :
    ofBaseName base = .ok none := by
  have hopening : Text.dropOpening? "geohash(".toList base = none := by
    cases hdrop : Text.dropOpening? "geohash(".toList base with
    | none => rfl
    | some rest =>
      have hhead := h 'g' (by rw [Text.eq_of_dropOpening? hdrop]; rfl)
      cases hhead
  have hname : TypeTag.ofName? (String.ofList base) = none := by
    cases htag : TypeTag.ofName? (String.ofList base) with
    | none => rfl
    | some tag =>
      have hnames : ∀ entry ∈ TypeTag.names, entry.1.toList.head?.any Char.isAlpha = true := by
        decide
      have hhead := hnames _ (mem_of_lookup htag)
      rw [Text.toList_lowerAscii, String.toList_ofList, List.head?_map] at hhead
      cases hbase : base.head? with
      | none => simp [hbase] at hhead
      | some c =>
        have hc := h c hbase
        simp [hbase, Text.toLower_of_not_isAlpha hc, hc] at hhead
  rw [ofBaseName, hopening, hname]
  rfl

/-- A text that starts with neither a blank nor a letter names no type. -/
theorem parse_of_head {name : String} {c : Char} {cs : List Char} (hname : name.toList = c :: cs)
    (hblank : Text.isBlank c = false) (halpha : c.isAlpha = false) :
    parse name = .ok none := by
  have hfront := (peelDimensions_suffix (Text.trim name.toList).reverse).reverse
  rw [List.reverse_reverse, hname] at hfront
  have hfront := hfront.trans (trim_isPrefix_cons hblank cs)
  have hhead : ∀ d ∈ ((peelDimensions (Text.trim (c :: cs)).reverse).2.reverse.map
      Char.toLower).head?, d.isAlpha = false := by
    intro d hd
    cases hbase : (peelDimensions (Text.trim (c :: cs)).reverse).2.reverse with
    | nil => simp [hbase] at hd
    | cons e rest =>
      rw [hbase, List.cons_prefix_cons] at hfront
      rw [hbase, hfront.1, List.map_cons, Text.toLower_of_not_isAlpha halpha] at hd
      obtain rfl := Option.some.inj hd
      exact halpha
  unfold parse
  dsimp only
  rw [hname]
  generalize ((peelDimensions (Text.trim (c :: cs)).reverse).2.reverse.map Char.toLower) = base
    at hhead ⊢
  unfold ofParts
  split
  · rfl
  · split
    · rename_i hstring
      simp only [Bool.and_eq_true, Bool.or_eq_true, beq_iff_eq] at hstring
      obtain rfl | rfl := hstring.2
      · cases hhead 's' rfl
      · cases hhead 't' rfl
    · rw [ofBaseName_of_head hhead]
      rfl

theorem isNamed_of_parse {name : String} {t : ColumnType} (h : parse name = .ok (some t)) :
    t.IsNamed := by
  unfold parse at h
  dsimp only at h
  generalize (peelDimensions (Text.trim name.toList).reverse).1 = dims at h
  generalize (peelDimensions (Text.trim name.toList).reverse).2.reverse.map Char.toLower = name at h
  unfold ofParts at h
  split at h
  · cases h
  · rename_i hmax
    split at h
    · cases h
      exact .stringArray
    · obtain ⟨base?, hbase, hsome⟩ := Text.map_eq_ok_iff.mp h
      obtain ⟨base, rfl, hdims⟩ := Option.bind_eq_some_iff.mp hsome
      unfold withDims? at hdims
      split at hdims
      · cases hdims
        exact isNamed_of_ofBaseName hbase
      · rename_i hpos
        split at hdims
        · rename_i helement
          cases hdims
          exact .array helement (Nat.pos_of_ne_zero (by simpa using hpos)) (Nat.not_lt.mp hmax)
        · cases hdims

/-- A type that can be written is an array of numbers or booleans, a geohash, or a tag. -/
theorem parse_cases {name : String} {t : ColumnType} (h : parse name = .ok (some t)) :
    (∃ element dims, t = array element dims ∧ (element.isNumeric || element == .boolean) = true) ∨
      (∃ bits, t = geohash bits) ∨ ∃ tag, t = .of tag ∧ tag ≠ .undefined := by
  cases isNamed_of_parse h with
  | @tag name tag hname => exact .inr (.inr ⟨tag, rfl, TypeTag.ne_undefined_of_mem_names hname⟩)
  | @geohash bits => exact .inr (.inl ⟨bits, rfl⟩)
  | stringArray => exact .inr (.inr ⟨.arrayString, rfl, by decide⟩)
  | @array element dims helement => exact .inl ⟨element, dims, rfl, helement⟩

/-- A type that can be written: it is an array, a geohash, or no more than its tag. -/
def IsWritten (t : ColumnType) : Prop := t.isArray = true ∨ t.isGeohash = true ∨ t = .of t.tag

theorem isWritten_of_parse {name : String} {t : ColumnType} (h : parse name = .ok (some t)) :
    t.IsWritten := by
  obtain ⟨element, dims, rfl, -⟩ | ⟨bits, rfl⟩ | ⟨tag, rfl, -⟩ := parse_cases h
  · exact .inl rfl
  · exact .inr (.inl (isGeohash_geohash bits))
  · exact .inr (.inr rfl)

/-- No text names the type of a variable that was not given one yet. -/
theorem tag_ne_undefined_of_parse {name : String} {t : ColumnType}
    (h : parse name = .ok (some t)) : t.tag ≠ .undefined := by
  obtain ⟨element, dims, rfl, -⟩ | ⟨bits, rfl⟩ | ⟨tag, rfl, hdefined⟩ := parse_cases h
  · exact TypeTag.noConfusion
  · intro htag
    have hgeohash := isGeohash_geohash bits
    rw [isGeohash, htag] at hgeohash
    cases hgeohash
  · exact hdefined

/-- No text names an array of string arrays. -/
theorem element_ne_arrayString_of_parse {name : String} {t : ColumnType}
    (h : parse name = .ok (some t)) : t.element ≠ .arrayString := by
  obtain ⟨element, dims, rfl, helement⟩ | ⟨bits, rfl⟩ | ⟨tag, rfl, -⟩ := parse_cases h
  · rintro rfl
    cases helement
  · exact TypeTag.noConfusion
  · exact TypeTag.noConfusion

end ColumnType

end SqlResolution
