import SqlResolution.Proofs.Overload.Reading
import SqlResolution.Proofs.TypeName.Display

/-!
# Signatures as they are displayed

A displayed type has no blank and no comma, and its brackets are closed. So each parameter that is
displayed is read as that parameter, and a signature without a tail reads back.
-/
namespace SqlResolution

namespace Signature

variable {cs ds kept ending : List Char}

/-! ### The word for a constant -/

theorem dropEndingIgnoringCase?_eq_some_iff : dropEndingIgnoringCase? ending cs = some kept ↔
    ∃ last, cs = kept ++ last ∧ last.map Char.toLower = ending.map Char.toLower := by
  unfold dropEndingIgnoringCase?
  constructor
  · intro h
    split at h
    · cases h
    · split at h
      · rename_i front last hcut
        split at h
        · rename_i hending
          cases h
          exact ⟨last, (Text.splitAtOffset?_eq_some_iff.mp hcut).1, beq_iff_eq.mp hending⟩
        · cases h
      · cases h
  · rintro ⟨last, rfl, hending⟩
    have hlength : Text.byteLength last = Text.byteLength ending := by
      rw [← Text.byteLength_map_toLower, hending, Text.byteLength_map_toLower]
    rw [Text.byteLength_append, hlength, if_neg (by omega), Nat.add_sub_cancel,
      Text.splitAtOffset?_append]
    simp only [hending, beq_self_eq_true, if_true]

/-- A text without blanks does not end in a word after a blank. -/
theorem dropEndingIgnoringCase?_of_forall (h : ∀ c ∈ cs, Text.isBlank c = false)
    (hending : ending.head? = some ' ') : dropEndingIgnoringCase? ending cs = none := by
  rw [Option.eq_none_iff_forall_ne_some]
  intro kept hkept
  obtain ⟨last, rfl, hlast⟩ := dropEndingIgnoringCase?_eq_some_iff.mp hkept
  obtain ⟨rest, rfl⟩ := List.head?_eq_some_iff.mp hending
  obtain ⟨c, front, rfl, hc, -⟩ := List.map_eq_cons_iff.mp (hlast.trans List.map_cons)
  have hblank := h c (by simp)
  rw [← Text.isBlank_toLower, hc] at hblank
  cases hblank

theorem takeConstantWord_of_forall (h : ∀ c ∈ cs, Text.isBlank c = false) :
    takeConstantWord cs = (cs, false) := by
  rw [takeConstantWord, dropEndingIgnoringCase?_of_forall h (by decide),
    dropEndingIgnoringCase?_of_forall h (by decide)]
  rfl

theorem takeConstantWord_append (cs : List Char) :
    takeConstantWord (cs ++ " constant".toList) = (Text.trimEnd cs, true) := by
  have hconstant : dropEndingIgnoringCase? " constant".toList (cs ++ " constant".toList) = some cs :=
    dropEndingIgnoringCase?_eq_some_iff.mpr ⟨_, rfl, rfl⟩
  rw [takeConstantWord, hconstant]
  rfl

/-! ### Displayed types as parts -/

/-- A text without blanks that is not cut at a comma and leaves brackets as deep as they were. -/
structure IsWord (cs : List Char) : Prop where
  notBlank : ∀ c ∈ cs, Text.isBlank c = false
  isWhole : ∀ depth, depthAfter? depth cs = some depth

theorem depthAfter?_append {depth depth' : Nat} (h : depthAfter? depth cs = some depth')
    (ds : List Char) : depthAfter? depth (cs ++ ds) = depthAfter? depth' ds := by
  induction cs generalizing depth with
  | nil =>
    cases h
    rfl
  | cons c cs ih =>
    rw [depthAfter?] at h
    split at h
    · cases h
    · rename_i hcomma
      rw [List.cons_append, depthAfter?, if_neg hcomma, ih h]

/-- Neither a blank nor one of the marks that parts are told by. -/
def isPlain (c : Char) : Bool := !(c == ',' || c == '(' || c == ')' || Text.isBlank c)

theorem depthAfter?_of_all (h : cs.all isPlain = true) (depth : Nat) :
    depthAfter? depth cs = some depth := by
  induction cs with
  | nil => rfl
  | cons c cs ih =>
    obtain ⟨hc, hcs⟩ := Bool.and_eq_true_iff.mp (List.all_cons.symm.trans h)
    simp only [isPlain, Bool.not_eq_true', Bool.or_eq_false_iff] at hc
    obtain ⟨⟨⟨hcomma, hopen⟩, hclose⟩, -⟩ := hc
    rw [depthAfter?, nextDepth]
    simp only [hcomma, hopen, hclose, Bool.false_and, Bool.false_eq_true, if_false]
    exact ih hcs

theorem IsWord.of_all (h : cs.all isPlain = true) : IsWord cs where
  notBlank c hc := by
    have hplain := List.all_eq_true.mp h c hc
    simp only [isPlain, Bool.not_eq_true', Bool.or_eq_false_iff] at hplain
    exact hplain.2
  isWhole := depthAfter?_of_all h

theorem IsWord.append (hcs : IsWord cs) (hds : IsWord ds) : IsWord (cs ++ ds) where
  notBlank c hc := (List.mem_append.mp hc).elim (hcs.notBlank c) (hds.notBlank c)
  isWhole depth := by rw [depthAfter?_append (hcs.isWhole depth), hds.isWhole]

/-- Brackets around a word make a word. -/
theorem IsWord.bracket (h : IsWord cs) : IsWord ('(' :: (cs ++ [')'])) where
  notBlank c hc := by
    obtain rfl | hc := List.mem_cons.mp hc
    · decide
    · obtain hc | hc := List.mem_append.mp hc
      · exact h.notBlank c hc
      · obtain rfl := List.mem_singleton.mp hc
        decide
  isWhole depth := by
    have hopen : depthAfter? depth ['('] = some (depth + 1) := by simp [depthAfter?, nextDepth]
    have hclose : depthAfter? (depth + 1) [')'] = some depth := by simp [depthAfter?, nextDepth]
    rw [← List.singleton_append, depthAfter?_append hopen, depthAfter?_append (h.isWhole _), hclose]

end Signature

namespace ColumnType

open Signature

theorem isWord_name (tag : TypeTag) : IsWord tag.name.toList := by
  have hall : ∀ tag ∈ TypeTag.all, tag.name.toList.all isPlain = true := by decide
  exact .of_all (hall tag tag.mem_all)

theorem isWord_toDigits (n : Nat) : IsWord (Nat.toDigits 10 n) := by
  refine .of_all (List.all_eq_true.mpr fun c hc => ?_)
  have hdigit := Text.isDigit_of_mem_toDigits hc
  have hne : ∀ d : Char, d.isDigit = false → (c == d) = false := fun d hd =>
    beq_eq_false_iff_ne.mpr (Text.ne_of_isDigit hdigit hd)
  rw [isPlain, hne ',' rfl, hne '(' rfl, hne ')' rfl, Text.isBlank_of_isDigit hdigit]
  rfl

theorem isPlain_of_unitBits? {unit : List Char} {size : Nat} (h : unitBits? unit = some size) :
    unit.all isPlain = true := by
  unfold unitBits? at h
  split at h
  all_goals first | rfl | cases h

theorem isWord_brackets (dims : Nat) :
    IsWord (String.join (List.replicate dims "[]")).toList := by
  induction dims with
  | zero => exact .of_all rfl
  | succ dims ih =>
    rw [List.replicate_succ', String.join_append, String.toList_append]
    exact ih.append (.of_all rfl)

theorem isWord_display {t : ColumnType} (h : t.IsNamed) : IsWord t.display.toList := by
  cases h with
  | @tag name tag h =>
    -- The tags of sized geohashes and of arrays, which are displayed otherwise, have no names.
    have hall : ∀ entry ∈ TypeTag.names, (of entry.2).display = entry.2.name := by decide
    have hdisplay : (of tag).display = tag.name := hall (name, tag) h
    rw [hdisplay]
    exact isWord_name tag
  | geohash hpos hmax =>
    obtain ⟨count, size, unit, hunit, -, -, -, hdisplay⟩ := display_geohash hpos hmax
    have hword : IsWord [unit] := .of_all (isPlain_of_unitBits? hunit)
    have hbracket := ((isWord_toDigits count).append hword).bracket
    have hopening : "GEOHASH(".toList = "GEOHASH".toList ++ ['('] := rfl
    rw [hdisplay, hopening, List.append_assoc, List.append_assoc, List.singleton_append]
    exact (isWord_name .geoHash).append hbracket
  | stringArray => exact isWord_name .arrayString
  | @array element dims h hpos hmax =>
    rw [toList_display_array]
    exact (isWord_name element).append (isWord_brackets dims)

end ColumnType

namespace Signature

variable {text : String} {name body : List Char} {s : Signature}

/-! ### Displayed parameters -/

/-- No case of a text that names no type is the name of one. -/
theorem map_toLower_ne_of_parse {name : String} {type : ColumnType}
    (h : ColumnType.parse name = .ok (some type)) (word : String)
    (hword : ColumnType.parse word = .ok none) :
    name.toList.map Char.toLower ≠ word.toList.map Char.toLower := by
  intro hlower
  have hcase : Text.eqIgnoringCase name word = true := by
    rw [Text.eqIgnoringCase_iff, Text.lowerAscii, hlower, ← Text.lowerAscii]
  rw [ColumnType.parse_of_eqIgnoringCase hcase, hword] at h
  cases h

/-- A displayed parameter is read as that parameter. -/
theorem reads_display {p : Parameter} (h : p.type.IsNamed) :
    Reads p.display.toList (.parameter p) := by
  obtain ⟨type, constant⟩ := p
  have hparse := ColumnType.parse_display_of_isNamed h
  have hword := ColumnType.isWord_display h
  have hne : type.display.toList ≠ [] := fun hnil =>
    map_toLower_ne_of_parse hparse "" (by decide) (by rw [hnil]; rfl)
  have hvar : type.display.toList.map Char.toLower ≠ "var".toList :=
    map_toLower_ne_of_parse hparse "var" (by decide)
  have htrimmed := Text.isTrimmed_of_forall hword.notBlank
  have htype : ColumnType.parse (String.ofList type.display.toList) = .ok (some type) := by
    rwa [String.ofList_toList]
  cases constant with
  | false =>
    have hdisplay : (Parameter.mk type false).display = type.display := String.append_empty
    rw [hdisplay]
    exact reads_type hne htrimmed (hword.isWhole 0) (takeConstantWord_of_forall hword.notBlank) hne
      hvar htype
  | true =>
    have hdisplay : (Parameter.mk type true).display.toList =
        type.display.toList ++ " constant".toList := String.toList_append
    have hconstant : takeConstantWord (type.display.toList ++ " constant".toList) =
        (type.display.toList, true) := by
      rw [takeConstantWord_append, Text.trimEnd_of_last htrimmed.2]
    have hwhole : depthAfter? 0 (type.display.toList ++ " constant".toList) = some 0 := by
      rw [depthAfter?_append (hword.isWhole 0)]
      rfl
    have hspaced : Text.IsTrimmed (type.display.toList ++ [' '] ++ "constant".toList) :=
      htrimmed.append (by decide) hne (by decide) [' ']
    rw [List.append_assoc] at hspaced
    rw [hdisplay]
    exact reads_type (by simp) hspaced hwhole hconstant hne hvar htype

/-! ### Displayed signatures -/

/-- The name that is read may stand before brackets again. -/
theorem Framed.name_spec (h : Framed text name body) :
    (Text.trim name).map Char.toLower ≠ [] ∧
      Text.IsTrimmed ((Text.trim name).map Char.toLower) ∧
      '(' ∉ (Text.trim name).map Char.toLower := by
  refine ⟨by simpa using h.ne_nil, (Text.isTrimmed_trim name).map_toLower, ?_⟩
  obtain ⟨before, after, -, -, hsplit⟩ := Text.exists_trim name
  rw [Text.mem_map_toLower rfl]
  intro hopen
  refine h.notMem ?_
  rw [hsplit]
  exact List.mem_append_left _ (List.mem_append_right _ hopen)

/-- Named types after a name in small letters read back. -/
theorem parse_display_of_isNamed {name : String} {ps : List Parameter} (hne : name.toList ≠ [])
    (htrimmed : Text.IsTrimmed name.toList) (hopen : '(' ∉ name.toList)
    (hlower : Text.lowerAscii name = name) (hnamed : ∀ p ∈ ps, p.type.IsNamed) :
    parse (display ⟨name, ps, none⟩) = .ok ⟨name, ps, none⟩ := by
  have hreads : List.Forall₂ Reads ((ps.map Parameter.display).map String.toList)
      (ps.map .parameter ++ ((none : Option Tail).map Part.tail).toList) := by
    rw [Option.map_none, Option.toList_none, List.append_nil, List.map_map,
      List.forall₂_map_left_iff, List.forall₂_map_right_iff, List.forall₂_same]
    exact fun p hp => reads_display (hnamed p hp)
  have hdisplay : display ⟨name, ps, none⟩ =
      name ++ "(" ++ ", ".intercalate (ps.map Parameter.display) ++ ")" := by
    rw [display, Option.map_none, Option.toList_none, List.append_nil]
  rw [hdisplay, parse_of_reads hne htrimmed hopen hreads, hlower]

/-- A signature without a tail is read again from its display. -/
theorem parse_display_of_parse (h : parse text = .ok s) (htail : s.tail = none) :
    parse s.display = .ok s := by
  have hnamed : ∀ p ∈ s.parameters, p.type.IsNamed := by
    intro p hp
    obtain ⟨word, hword⟩ := exists_name_of_parse h p hp
    exact ColumnType.isNamed_of_parse hword
  obtain ⟨name, body, hframed⟩ | ⟨fault, hfault⟩ := framed_or_invalid text
  · rw [parse_of_framed hframed, Text.map_eq_ok_iff] at h
    obtain ⟨⟨ps, t⟩, -, rfl⟩ := h
    obtain rfl : t = none := htail
    have htoList : (Text.lowerAscii (String.ofList (Text.trim name))).toList =
        (Text.trim name).map Char.toLower := by simp
    have hlower : Text.lowerAscii (Text.lowerAscii (String.ofList (Text.trim name))) =
        Text.lowerAscii (String.ofList (Text.trim name)) := by
      rw [← String.toList_inj, Text.toList_lowerAscii, htoList, Text.map_toLower_map_toLower]
    obtain ⟨hne, htrimmed, hopen⟩ := hframed.name_spec
    rw [← htoList] at hne htrimmed hopen
    exact parse_display_of_isNamed hne htrimmed hopen hlower hnamed
  · rw [hfault] at h
    cases h

theorem parse_display_of_parse_within :
    let s : Signature := ⟨"within", [⟨.geohash 25, true⟩, ⟨.array .double 2, false⟩,
      ⟨.arrayString, true⟩], none⟩
    parse " Within( geohash(025b)  CONST,Double [] [],text[] Constant ) " = .ok s ∧
      s.tail = none ∧ parse s.display = .ok s := by
  intro s
  have hparse : parse " Within( geohash(025b)  CONST,Double [] [],text[] Constant ) " = .ok s := by
    decide +kernel
  exact ⟨hparse, rfl, parse_display_of_parse hparse rfl⟩

end Signature
end SqlResolution
