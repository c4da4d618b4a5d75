import SqlResolution.Proofs.Literal.Cuts
import SqlResolution.Proofs.Overload.Reading

/-!
# Signatures that are cut inside a character

The name of a signature, its parts and the word for a constant are cut at character boundaries. So a
signature comes to a cut inside a character exactly where the first of its parts that is not read as
a parameter is one whose type comes to it.
-/
namespace SqlResolution

namespace Signature

variable {signature : String} {raw : List Char} {raws : List (List Char)}
  {cut : CutInsideCharacter}

theorem readPart_eq_cut_iff : readPart signature raw = .error (.cutInsideCharacter cut) ↔
    ColumnType.parse (String.ofList (takeConstantWord (Text.trim raw)).1) = .error cut := by
  unfold readPart
  rcases takeConstantWord (Text.trim raw) with ⟨text, constant⟩
  dsimp only
  split
  · rename_i hempty
    rw [List.isEmpty_iff.mp hempty]
    simp only [Except.error.injEq, reduceCtorEq, false_iff]
    exact fun h => by cases h
  · split
    · rename_i hvar
      have hcase : Text.eqIgnoringCase (String.ofList text) "var" = true := by
        rw [Text.eqIgnoringCase_iff, ← String.toList_inj, Text.toList_lowerAscii,
          String.toList_ofList, beq_iff_eq.mp hvar]
        rfl
      rw [ColumnType.parse_of_eqIgnoringCase hcase]
      simp only [reduceCtorEq, false_iff]
      exact fun h => by cases h
    · rcases ColumnType.parse (String.ofList text) with cut' | _ | type
      · simp
      · simp
      · simp

/-- Parts are read from left to right up to the first one that is cut. -/
theorem readParts_eq_cut_iff : readParts signature raws = .error (.cutInsideCharacter cut) ↔
    ∃ before ps torn after, raws = before ++ torn :: after ∧
      List.Forall₂ (fun raw p => readPart signature raw = .ok (.parameter p)) before ps ∧
      readPart signature torn = .error (.cutInsideCharacter cut) := by
  induction raws with
  | nil => simp [readParts]
  | cons raw raws ih =>
    rw [readParts]
    constructor
    · intro h
      cases hpart : readPart signature raw with
      | error e =>
        rw [hpart] at h
        obtain rfl : e = .cutInsideCharacter cut := Except.error.inj h
        exact ⟨[], [], raw, raws, rfl, .nil, hpart⟩
      | ok part =>
        rw [hpart] at h
        cases part with
        | tail t =>
          simp only [bind, Except.bind] at h
          split at h
          · cases h
          · cases h
        | parameter p =>
          have hrest : readParts signature raws = .error (.cutInsideCharacter cut) := by
            simp only [bind, Except.bind] at h
            cases hrest : readParts signature raws with
            | error e =>
              rw [hrest] at h
              exact h
            | ok r =>
              rw [hrest] at h
              cases h
          obtain ⟨before, ps, torn, after, rfl, hbefore, htorn⟩ := ih.mp hrest
          exact ⟨raw :: before, p :: ps, torn, after, rfl, .cons hpart hbefore, htorn⟩
    · rintro ⟨before, ps, torn, after, hraws, hbefore, htorn⟩
      cases hbefore with
      | nil =>
        obtain ⟨rfl, -⟩ := List.cons.inj hraws
        rw [htorn]
        rfl
      | @cons first p before ps hfirst hbefore =>
        obtain ⟨rfl, hrest⟩ := List.cons.inj hraws
        rw [hfirst]
        simp only [bind, Except.bind]
        rw [ih.mpr ⟨before, ps, torn, after, hrest, hbefore, htorn⟩]

/-- The first part that is not read as a parameter has a type that is cut inside a character. -/
def IsTorn (signature : String) (precision : List Char) : Prop :=
  ∃ name body before ps torn after, Framed signature name body ∧
    bodyParts body = .ok (before ++ torn :: after) ∧
    List.Forall₂ (fun raw p => readPart signature raw = .ok (.parameter p)) before ps ∧
    ColumnType.IsTorn (takeConstantWord (Text.trim torn)).1 precision

theorem parse_eq_cut_iff : parse signature = .error (.cutInsideCharacter cut) ↔
    ∃ precision, IsTorn signature precision ∧
      cut = ⟨String.ofList (precision.map Char.toLower)⟩ := by
  constructor
  · intro h
    obtain ⟨name, body, hframed⟩ | ⟨fault, hfault⟩ := framed_or_invalid signature
    · rw [parse_of_framed hframed, Text.map_eq_error_iff, readParts_eq_cut_iff] at h
      obtain ⟨before, ps, torn, after, hsplit, hbefore, htorn⟩ := h
      rw [readPart_eq_cut_iff, ColumnType.parse_eq_error_iff, String.toList_ofList] at htorn
      obtain ⟨precision, htorn, hcut⟩ := htorn
      exact ⟨precision, ⟨name, body, before, ps, torn, after, hframed, by rw [bodyParts_eq, hsplit],
        hbefore, htorn⟩, hcut⟩
    · rw [hfault] at h
      cases h
  · rintro ⟨precision, ⟨name, body, before, ps, torn, after, hframed, hbody, hbefore, htorn⟩, hcut⟩
    rw [bodyParts_eq] at hbody
    have hread : readPart signature torn = .error (.cutInsideCharacter cut) := by
      rw [readPart_eq_cut_iff, ColumnType.parse_eq_error_iff, String.toList_ofList]
      exact ⟨precision, htorn, hcut⟩
    rw [parse_of_framed hframed, Text.map_eq_error_iff, readParts_eq_cut_iff]
    exact ⟨before, ps, torn, after, Except.ok.inj hbody, hbefore, hread⟩

end Signature
/-- Reading a precision, a type name, a constant token or a signature comes to a cut inside a
character exactly where the precision of a geohash ends in a character longer than a byte. Every
other cut is at a character boundary. -/
theorem cutInsideCharacter_iff (cut : CutInsideCharacter) :
    (∀ text, readPrecision text = .error cut ↔ HasWideEnd text ∧ cut = ⟨String.ofList text⟩) ∧
    (∀ name, ColumnType.parse name = .error cut ↔
      ∃ precision, ColumnType.IsTorn name.toList precision ∧
        cut = ⟨String.ofList (precision.map Char.toLower)⟩) ∧
    (∀ span token, Literal.parse span token = .error (.cutInsideCharacter cut) ↔
      ∃ precision, ColumnType.IsTorn token.toList precision ∧
        cut = ⟨String.ofList (precision.map Char.toLower)⟩) ∧
    (∀ signature, Signature.parse signature = .error (.cutInsideCharacter cut) ↔
      ∃ precision, Signature.IsTorn signature precision ∧
        cut = ⟨String.ofList (precision.map Char.toLower)⟩) := by
  refine ⟨fun text => readPrecision_eq_error_iff, fun name => ColumnType.parse_eq_error_iff,
    fun span token => ?_, fun signature => Signature.parse_eq_cut_iff⟩
  rw [Literal.parse_eq_cut_iff, ColumnType.parse_eq_error_iff]

/-- The last character of this precision is two bytes long. -/
theorem cut_accented : readPrecision "é".toList = .error ⟨"é"⟩ ∧
    ColumnType.parse "geohash(é)" = .error ⟨"é"⟩ ∧
    Literal.parse .none "geohash(é)" = .error (.cutInsideCharacter ⟨"é"⟩) ∧
    Signature.parse "f(int, geohash(é))" = .error (.cutInsideCharacter ⟨"é"⟩) := by
  have htype : ColumnType.parse "geohash(é)" = .error ⟨"é"⟩ := by decide
  exact ⟨by decide, htype, (Literal.parse_eq_cut_iff .none).mpr htype, by decide⟩

end SqlResolution
