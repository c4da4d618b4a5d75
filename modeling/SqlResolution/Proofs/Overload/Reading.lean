import Mathlib.Data.List.Forall2
import SqlResolution.Proofs.Overload.Frame
import SqlResolution.Proofs.TypeName
import SqlResolution.Text.Ascii

/-!
# Reading signatures

The text made of a name and of the texts of parameters, with commas between them, reads as the
signature with that name and these parameters.
-/
namespace SqlResolution

namespace Signature

/-- The depth of brackets after a text, where the text is not cut at any of its commas. -/
def depthAfter? : Nat → List Char → Option Nat
  | depth, [] => some depth
  | depth, c :: cs =>
    if c == ',' && depth == 0 then none
    else depthAfter? (nextDepth depth c) cs

/-- A text that is not cut goes to the first part of what follows it. -/
theorem splitParameters_append {p cs first : List Char} {rest : List (List Char)}
    {depth depth' : Nat} (h : depthAfter? depth p = some depth')
    (hcs : splitParameters depth' cs = first :: rest) :
    splitParameters depth (p ++ cs) = (p ++ first) :: rest := by
  induction p generalizing depth with
  | nil =>
    cases h
    exact hcs
  | cons c p ih =>
    rw [depthAfter?] at h
    split at h
    · cases h
    · rename_i hcut
      exact splitParameters_cons hcut (ih h)

/-- The text of one part of a signature. -/
structure Reads (raw : List Char) (part : Part) : Prop where
  ne_nil : raw ≠ []
  isTrimmed : Text.IsTrimmed raw
  isWhole : depthAfter? 0 raw = some 0
  read : ∀ signature, readPart signature raw = .ok part

theorem Reads.read_spaced {raw : List Char} {part : Part} (h : Reads raw part)
    (signature : String) : readPart signature (' ' :: raw) = .ok part := by
  have hread := h.read signature
  unfold readPart at hread ⊢
  rwa [Text.trim_cons_blank (by decide)]

/-- The text of a type, with or without the word for a constant. -/
theorem reads_type {raw text : List Char} {type : ColumnType} {constant : Bool} (hraw : raw ≠ [])
    (htrimmed : Text.IsTrimmed raw) (hwhole : depthAfter? 0 raw = some 0)
    (hword : takeConstantWord raw = (text, constant)) (htext : text ≠ [])
    (hvar : text.map Char.toLower ≠ "var".toList)
    (htype : ColumnType.parse (String.ofList text) = .ok (some type)) :
    Reads raw (.parameter ⟨type, constant⟩) := by
  refine ⟨hraw, htrimmed, hwhole, fun signature => ?_⟩
  unfold readPart
  rw [htrimmed.trim, hword]
  simp only [List.isEmpty_iff, htext, if_false, beq_iff_eq, hvar, htype]

/-- The word for a tail, with or without the word for a constant. -/
theorem reads_tail {raw text : List Char} {constant : Bool} (hraw : raw ≠ [])
    (htrimmed : Text.IsTrimmed raw) (hwhole : depthAfter? 0 raw = some 0)
    (hword : takeConstantWord raw = (text, constant))
    (hvar : text.map Char.toLower = "var".toList) : Reads raw (.tail ⟨constant⟩) := by
  refine ⟨hraw, htrimmed, hwhole, fun signature => ?_⟩
  have htext : text ≠ [] := by
    rintro rfl
    cases hvar
  unfold readPart
  rw [htrimmed.trim, hword]
  simp only [List.isEmpty_iff, htext, if_false, hvar, beq_self_eq_true, if_true]

variable {raws : List (List Char)} {parts : List Part}

theorem isTrimmed_intercalate (h : List.Forall₂ Reads raws parts) (hne : raws ≠ []) :
    [',', ' '].intercalate raws ≠ [] ∧ Text.IsTrimmed ([',', ' '].intercalate raws) := by
  induction h with
  | nil => exact absurd rfl hne
  | @cons raw part raws parts head tail ih =>
    cases raws with
    | nil => simpa [List.intercalate] using ⟨head.ne_nil, head.isTrimmed⟩
    | cons next raws =>
      obtain ⟨hrest, htrimmed⟩ := ih (List.cons_ne_nil next raws)
      rw [List.intercalate_cons_cons]
      refine ⟨?_, head.isTrimmed.append htrimmed head.ne_nil hrest [',', ' ']⟩
      simp [head.ne_nil]

/-- Cutting at the commas gives the parts back, all but the first after a blank. -/
theorem splitParameters_intercalate {raw : List Char} {part : Part} (head : Reads raw part)
    (tail : List.Forall₂ Reads raws parts) :
    splitParameters 0 ([',', ' '].intercalate (raw :: raws)) = raw :: raws.map (' ' :: ·) := by
  induction tail generalizing raw part with
  | nil =>
    have hwhole : splitParameters 0 [] = [] :: [] := rfl
    simpa [List.intercalate] using splitParameters_append head.isWhole hwhole
  | @cons next nextPart raws parts hnext _ ih =>
    have hcut : splitParameters 0 ([',', ' '] ++ [',', ' '].intercalate (next :: raws)) =
        [] :: (' ' :: next) :: raws.map (' ' :: ·) := by
      simp [splitParameters, nextDepth, ih hnext]
    rw [List.intercalate_cons_cons, List.append_assoc, splitParameters_append head.isWhole hcut,
      List.append_nil, List.map_cons]

theorem readParts_of_read {ps : List Parameter} {t : Option Tail} (signature : String)
    (h : List.Forall₂ (fun raw part => readPart signature raw = .ok part) raws
      (ps.map .parameter ++ (t.map Part.tail).toList)) :
    readParts signature raws = .ok (ps, t) := by
  induction ps generalizing raws with
  | nil =>
    cases t with
    | none =>
      cases h
      rfl
    | some t =>
      obtain _ | ⟨head, ⟨⟩⟩ := h
      simp [readParts, head, bind, Except.bind]
  | cons p ps ih =>
    obtain _ | ⟨head, tail⟩ := h
    simp [readParts, head, ih tail, bind, Except.bind]

/-- Parts joined by commas read as the parameters that they are the texts of. -/
theorem readParts_intercalate {ps : List Parameter} {t : Option Tail} (signature : String)
    (h : List.Forall₂ Reads raws (ps.map .parameter ++ (t.map Part.tail).toList))
    (hne : raws ≠ []) :
    readParts signature (splitParameters 0 ([',', ' '].intercalate raws)) = .ok (ps, t) := by
  generalize hparts : ps.map Part.parameter ++ (t.map Part.tail).toList = parts at h
  cases h with
  | nil => exact absurd rfl hne
  | @cons raw part raws parts head tail =>
    rw [splitParameters_intercalate head tail]
    refine readParts_of_read signature ?_
    rw [hparts]
    refine .cons (head.read signature) ?_
    rw [List.forall₂_map_left_iff]
    exact tail.imp fun _ _ hreads => hreads.read_spaced signature

/-- A name and parts in brackets read as the signature of that name and these parts. -/
theorem parse_of_reads {name : String} {raws : List String} {ps : List Parameter}
    {t : Option Tail} (hname : name.toList ≠ []) (htrimmed : Text.IsTrimmed name.toList)
    (hopen : '(' ∉ name.toList)
    (hraws : List.Forall₂ Reads (raws.map String.toList)
      (ps.map .parameter ++ (t.map Part.tail).toList)) :
    parse (name ++ "(" ++ ", ".intercalate raws ++ ")") = .ok ⟨Text.lowerAscii name, ps, t⟩ := by
  have hbody : (", ".intercalate raws).toList = [',', ' '].intercalate (raws.map String.toList) :=
    String.toList_intercalate
  have hframed : Framed (name ++ "(" ++ ", ".intercalate raws ++ ")") name.toList
      (", ".intercalate raws).toList :=
    ⟨by rwa [htrimmed.trim], hopen, [], rfl, by simp⟩
  have hparts : readParts (name ++ "(" ++ ", ".intercalate raws ++ ")")
      (partsOf (", ".intercalate raws).toList) = .ok (ps, t) := by
    rw [hbody]
    generalize name ++ "(" ++ ", ".intercalate raws ++ ")" = signature
    generalize raws.map String.toList = raws at hraws
    by_cases hempty : raws = []
    · subst hempty
      generalize hparts : ps.map Part.parameter ++ (t.map Part.tail).toList = parts at hraws
      cases hraws
      obtain ⟨hps, ht⟩ := List.append_eq_nil_iff.mp hparts
      obtain rfl : ps = [] := List.map_eq_nil_iff.mp hps
      obtain rfl : t = none := by simpa using ht
      rfl
    · obtain ⟨hbody, hbodyTrimmed⟩ := isTrimmed_intercalate hraws hempty
      rw [partsOf, hbodyTrimmed.trim, if_neg (by rwa [List.isEmpty_iff]),
        readParts_intercalate signature hraws hempty]
  rw [parse_of_framed hframed, hparts, htrimmed.trim, String.ofList_toList]
  rfl

/-! ### The types of parameters that are read -/

section Read

variable {signature : String} {raws : List (List Char)} {ps : List Parameter} {t : Option Tail}

theorem exists_name_of_readPart {raw : List Char} {p : Parameter}
    (h : readPart signature raw = .ok (.parameter p)) :
    ∃ name, ColumnType.parse name = .ok (some p.type) := by
  unfold readPart at h
  dsimp only at h
  split at h
  · cases h
  · split at h
    · cases h
    · split at h
      · cases h
      · cases h
      · rename_i type htype
        cases h
        exact ⟨_, htype⟩

theorem exists_name_of_readParts (h : readParts signature raws = .ok (ps, t)) :
    ∀ p ∈ ps, ∃ name, ColumnType.parse name = .ok (some p.type) := by
  induction raws generalizing ps t with
  | nil =>
    cases h
    exact fun p hp => by cases hp
  | cons raw rest ih =>
    rw [readParts] at h
    rcases hpart : readPart signature raw with error | part
    · rw [hpart] at h
      cases h
    · rw [hpart] at h
      cases part with
      | tail tail =>
        simp only [bind, Except.bind] at h
        split at h
        · cases h
          exact fun p hp => by cases hp
        · cases h
      | parameter first =>
        simp only [bind, Except.bind] at h
        rcases hrest : readParts signature rest with error | ⟨others, t'⟩
        · rw [hrest] at h
          cases h
        · rw [hrest] at h
          cases h
          intro p hp
          obtain rfl | hp := List.mem_cons.mp hp
          · exact exists_name_of_readPart hpart
          · exact ih hrest p hp

/-- Each parameter of a signature that is read has a type that a text names. -/
theorem exists_name_of_parse {s : Signature} (h : parse signature = .ok s) :
    ∀ p ∈ s.parameters, ∃ name, ColumnType.parse name = .ok (some p.type) := by
  obtain ⟨name, body, hframed⟩ | ⟨fault, hfault⟩ := framed_or_invalid signature
  · rw [parse_of_framed hframed, Text.map_eq_ok_iff] at h
    obtain ⟨⟨ps, t⟩, hparts, rfl⟩ := h
    exact exists_name_of_readParts hparts
  · rw [hfault] at h
    cases h

end Read
end Signature
end SqlResolution
