import SqlResolution.Proofs.Text.LetterCase
import SqlResolution.Proofs.Text.Number
import SqlResolution.Proofs.TypeName

/-!
# Brackets after a type name

A type name is a base with pairs of brackets after it and blanks around both. Whatever is read is
split so, and every text that is made so reads as its base with as many dimensions. So neither
blanks around a name nor the case of its letters matter.
-/
namespace SqlResolution

/-- Pairs of brackets with blanks before, between and after them. -/
inductive Brackets : Nat → List Char → Prop
  | blanks {cs : List Char} (h : cs.all Text.isBlank = true) : Brackets 0 cs
  | pair {dims : Nat} {cs after : List Char} (h : Brackets dims cs)
      (hafter : after.all Text.isBlank = true) : Brackets (dims + 1) (cs ++ '[' :: ']' :: after)

/-! ### Taking brackets off -/

section Peel

variable {dims : Nat} {c : Char} {cs after base : List Char}

theorem peelDimensions_pair (cs : List Char) : peelDimensions (']' :: '[' :: cs) =
    ((peelDimensions cs).1 + 1, (peelDimensions cs).2) := rfl

theorem peelDimensions_cons_blank (h : Text.isBlank c = true) (cs : List Char) :
    peelDimensions (c :: cs) = peelDimensions cs := by
  rw [peelDimensions.eq_def (c :: cs)]
  split
  · rename_i heq
    cases heq
    cases h
  · rename_i heq
    cases heq
    rw [if_pos h]
  · rename_i heq
    cases heq

/-- A character that is neither blank nor half of a pair of brackets ends the brackets. -/
theorem peelDimensions_cons (hblank : Text.isBlank c = false)
    (hpair : ∀ rest, c = ']' → cs ≠ '[' :: rest) : peelDimensions (c :: cs) = (0, c :: cs) := by
  rw [peelDimensions.eq_def (c :: cs)]
  split
  · rename_i rest heq
    cases heq
    exact absurd rfl (hpair rest rfl)
  · rename_i heq
    cases heq
    rw [if_neg (Bool.eq_false_iff.mp hblank)]
  · rename_i heq
    cases heq

theorem peelDimensions_blanks {blanks : List Char} (h : blanks.all Text.isBlank = true)
    (cs : List Char) : peelDimensions (blanks ++ cs) = peelDimensions cs := by
  induction blanks with
  | nil => rfl
  | cons c blanks ih =>
    rw [List.all_cons, Bool.and_eq_true] at h
    rw [List.cons_append, peelDimensions_cons_blank h.1, ih h.2]

/-- Nothing is taken off a text that ends in a character other than a blank and a bracket. -/
theorem peelDimensions_of_last (hblank : Text.isBlank c = false) (hbracket : c ≠ ']')
    (cs : List Char) : peelDimensions (c :: cs) = (0, c :: cs) :=
  peelDimensions_cons hblank fun _ hclose => absurd hclose hbracket

/-- So nothing is taken off a geohash. -/
theorem peelDimensions_closing (cs : List Char) :
    peelDimensions (cs ++ [')']).reverse = (0, (cs ++ [')']).reverse) := by
  rw [List.reverse_concat]
  exact peelDimensions_of_last rfl (by decide) _

/-- Brackets are taken off what they stand after. -/
theorem peelDimensions_brackets (h : Brackets dims after)
    (hbase : peelDimensions base = (0, base)) :
    peelDimensions (after.reverse ++ base) = (dims, base) := by
  induction h with
  | blanks h => rw [peelDimensions_blanks (by rwa [List.all_reverse]), hbase]
  | @pair dims cs after _ hafter ih =>
    have hreverse : (cs ++ '[' :: ']' :: after).reverse ++ base =
        after.reverse ++ ']' :: '[' :: (cs.reverse ++ base) := by simp
    rw [hreverse, peelDimensions_blanks (by rwa [List.all_reverse]), peelDimensions_pair, ih]

theorem Brackets.append_blank (h : Brackets dims after) (hblank : Text.isBlank c = true) :
    Brackets dims (after ++ [c]) := by
  cases h with
  | blanks h => exact .blanks (by rw [List.all_append, h, List.all_cons, hblank]; rfl)
  | pair h hafter =>
    rw [List.append_assoc, List.cons_append, List.cons_append]
    exact .pair h (by rw [List.all_append, hafter, List.all_cons, hblank]; rfl)

/-- What is taken off the end of a text is brackets. -/
theorem exists_brackets (reversed : List Char) :
    ∃ after, Brackets (peelDimensions reversed).1 after ∧
      reversed.reverse = (peelDimensions reversed).2.reverse ++ after := by
  fun_induction peelDimensions reversed with
  | case1 rest dims base hpeel ih =>
    obtain ⟨after, hafter, hsplit⟩ := ih
    rw [hpeel] at hafter hsplit
    refine ⟨after ++ ['[', ']'], hafter.pair rfl, ?_⟩
    simp only [List.reverse_cons, hsplit, List.append_assoc, List.cons_append, List.nil_append]
  | case2 c cs _ hblank ih =>
    obtain ⟨after, hafter, hsplit⟩ := ih
    refine ⟨after ++ [c], hafter.append_blank hblank, ?_⟩
    rw [List.reverse_cons, hsplit, List.append_assoc]
  | case3 c cs => exact ⟨[], .blanks rfl, by simp⟩
  | case4 => exact ⟨[], .blanks rfl, rfl⟩

/-- Brackets and blanks are no letters. -/
theorem peelDimensions_map_toLower (cs : List Char) :
    peelDimensions (cs.map Char.toLower) =
      ((peelDimensions cs).1, (peelDimensions cs).2.map Char.toLower) := by
  fun_induction peelDimensions cs with
  | case1 rest dims base hpeel ih =>
    rw [hpeel] at ih
    have hbrackets : (']' :: '[' :: rest).map Char.toLower =
        ']' :: '[' :: rest.map Char.toLower := rfl
    rw [hbrackets, peelDimensions_pair, ih]
  | case2 c cs _ hblank ih =>
    rw [List.map_cons, peelDimensions_cons_blank (by rwa [Text.isBlank_toLower]), ih]
  | case3 c cs hother hblank =>
    have hplain : Text.isBlank c.toLower = false := by
      rwa [Text.isBlank_toLower, ← Bool.not_eq_true]
    rw [List.map_cons, peelDimensions_cons hplain]
    intro rest hclose hopen
    obtain ⟨d, ds, rfl, hd, -⟩ := List.map_eq_cons_iff.mp hopen
    obtain rfl := (Text.toLower_eq_iff (by decide)).mp hd
    exact hother ds ((Text.toLower_eq_iff (by decide)).mp hclose) rfl
  | case4 => rfl

end Peel

/-! ### What stands before brackets -/

/-- A precision with a unit of one byte is cut before the unit. -/
theorem readPrecision_concat {digits : List Char} {unit : Char} (h : unit.utf8Size = 1) :
    readPrecision (digits ++ [unit]) = .ok (precision? digits [unit]) := by
  have hne : ¬(digits ++ [unit]).isEmpty = true := by simp
  rw [readPrecision, if_neg hne, Text.cutAt, Text.splitAtOffset?_concat digits h]
  rfl

/-- One with a longer last character is not cut. -/
theorem readPrecision_concat_of_wide {digits : List Char} {unit : Char} (h : unit.utf8Size ≠ 1) :
    readPrecision (digits ++ [unit]) = .error ⟨String.ofList (digits ++ [unit])⟩ := by
  have hne : ¬(digits ++ [unit]).isEmpty = true := by simp
  rw [readPrecision, if_neg hne, Text.cutAt, Text.splitAtOffset?_concat_of_wide digits h]
  rfl

namespace ColumnType

theorem ofBaseName_geohash (precision : List Char) :
    ofBaseName ("geohash(".toList ++ precision ++ [')']) =
      (readPrecision precision).map (·.map geohash) := by
  simp only [ofBaseName, List.append_assoc, Text.dropOpening?_append, Text.dropEnding?_append]

/-- Brackets after a base stand for an array of what the base names, but after the names of texts. -/
theorem ofParts_eq {base : List Char} {dims : Nat} (hmax : dims ≤ 255)
    (htext : dims = 0 ∨ base ≠ "string".toList ∧ base ≠ "text".toList) :
    ofParts dims base = (ofBaseName base).map (·.bind (·.withDims? dims)) := by
  have harrayString :
      ¬(dims == 1 && (base == "string".toList || base == "text".toList)) = true := by
    simp only [Bool.and_eq_true, Bool.or_eq_true, beq_iff_eq]
    rintro ⟨rfl, hname⟩
    obtain hdims | ⟨hstring, htext⟩ := htext
    · cases hdims
    · exact hname.elim hstring htext
  rw [ofParts, if_neg (Nat.not_lt.mpr hmax), if_neg harrayString]

/-! ### Names -/

theorem parse_eq_ofParts (name : String) :
    parse name = ofParts (peelDimensions (Text.trim name.toList).reverse).1
      ((peelDimensions (Text.trim name.toList).reverse).2.reverse.map Char.toLower) := rfl

/-- Taking blanks off the end of a text first makes no difference. -/
theorem peelDimensions_trim (cs : List Char) :
    peelDimensions (Text.trim cs).reverse = peelDimensions (Text.trimStart cs).reverse := by
  obtain ⟨blanks, hblanks, hsplit⟩ := Text.exists_trimEnd (Text.trimStart cs)
  conv_rhs => rw [hsplit, List.reverse_append,
    peelDimensions_blanks (by rwa [List.all_reverse]), ← Text.trim]

/-- A name is a base between blanks and brackets. -/
theorem exists_parts (name : String) :
    ∃ before base after dims, name.toList = before ++ base ++ after ∧
      before.all Text.isBlank = true ∧ Brackets dims after ∧
      parse name = ofParts dims (base.map Char.toLower) := by
  obtain ⟨before, hbefore, hname⟩ := Text.exists_trimStart name.toList
  obtain ⟨after, hafter, hrest⟩ := exists_brackets (Text.trimStart name.toList).reverse
  rw [List.reverse_reverse] at hrest
  refine ⟨before, (peelDimensions (Text.trimStart name.toList).reverse).2.reverse, after, _, ?_,
    hbefore, hafter, ?_⟩
  · rw [List.append_assoc, ← hrest]
    exact hname
  · rw [parse_eq_ofParts, peelDimensions_trim]

/-- Between blanks and brackets a base is read by itself. -/
theorem parse_of_parts {name : String} {before base after : List Char} {dims : Nat}
    (hname : name.toList = before ++ base ++ after) (hbefore : before.all Text.isBlank = true)
    (hne : base ≠ []) (hhead : base.head?.any Text.isBlank = false)
    (hpeeled : peelDimensions base.reverse = (0, base.reverse)) (hafter : Brackets dims after) :
    parse name = ofParts dims (base.map Char.toLower) := by
  have hstart : Text.trimStart (before ++ base ++ after) = base ++ after := by
    rw [List.append_assoc, Text.trimStart_append hbefore]
    refine Text.trimStart_of_head ?_
    rwa [List.head?_append_of_ne_nil _ hne]
  rw [parse_eq_ofParts, hname, peelDimensions_trim, hstart, List.reverse_append,
    peelDimensions_brackets hafter hpeeled, List.reverse_reverse]

/-- Names that differ in the case of letters name the same type. -/
theorem parse_of_eqIgnoringCase {a b : String} (h : Text.eqIgnoringCase a b = true) :
    parse a = parse b := by
  have hlower : ∀ s : String, parse (Text.lowerAscii s) = parse s := by
    intro s
    rw [parse_eq_ofParts, parse_eq_ofParts, Text.toList_lowerAscii, Text.trim_map_toLower,
      ← List.map_reverse, peelDimensions_map_toLower, ← List.map_reverse,
      Text.map_toLower_map_toLower]
  rw [← hlower a, ← hlower b, (Text.eqIgnoringCase_iff a b).mp h]

/-- Blanks around a name make no difference. -/
theorem parse_of_blanks {before after : List Char} (hbefore : before.all Text.isBlank = true)
    (hafter : after.all Text.isBlank = true) (name : String) :
    parse (String.ofList (before ++ name.toList ++ after)) = parse name := by
  rw [parse_eq_ofParts, parse_eq_ofParts, String.toList_ofList, Text.trim_append_right hafter,
    Text.trim_append_left hbefore]

end ColumnType
end SqlResolution
