import Mathlib.Data.List.Basic
import SqlResolution.Overload.Signature
import SqlResolution.Proofs.Text.Blank
import SqlResolution.Proofs.Text.Slice

/-!
# The frame of a signature

A text that is no name with a body in brackets is refused as such. Of all others the name and the
parts of the body decide what they read as. The cuts between them are at marks, which are one byte
long, so none of them is inside a character.
-/
namespace SqlResolution.Signature

variable {signature : String} {name body : List Char}

/-! ### The parts of a body -/

/-- The parts between the commas that are not inside brackets. -/
def splitParameters : Nat → List Char → List (List Char)
  | _, [] => [[]]
  | depth, c :: cs =>
    if c == ',' && depth == 0 then [] :: splitParameters depth cs
    else
      match splitParameters (nextDepth depth c) cs with
      | first :: rest => (c :: first) :: rest
      | [] => [[c]]

theorem splitParameters_cons {depth : Nat} {c : Char} (h : ¬(c == ',' && depth == 0) = true)
    {cs first : List Char} {rest : List (List Char)}
    (hcs : splitParameters (nextDepth depth c) cs = first :: rest) :
    splitParameters depth (c :: cs) = (c :: first) :: rest := by
  rw [splitParameters, if_neg h, hcs]

/-- Where some text is cut off and a part is at hand, it goes to the first part of what follows. -/
theorem exists_cutAtCommas {cs : List Char} (start offset depth : Nat) (done pending : List Char)
    (hbody : body = done ++ pending ++ cs) (hstart : start = Text.byteLength done)
    (hoffset : offset = Text.byteLength (done ++ pending)) :
    ∃ first rest, splitParameters depth cs = first :: rest ∧
      cutAtCommas body start offset depth cs = .ok ((pending ++ first) :: rest) := by
  induction cs generalizing start offset depth done pending with
  | nil =>
    refine ⟨[], [], rfl, ?_⟩
    rw [cutAtCommas, hbody, hstart, List.append_assoc, Text.sliceFrom_append]
    rfl
  | cons c cs ih =>
    by_cases hcomma : (c == ',' && depth == 0) = true
    · -- The part at hand ends here, and one without characters is begun after the comma.
      obtain rfl : c = ',' := by simpa using (Bool.and_eq_true_iff.mp hcomma).1
      obtain ⟨first, rest, hsplit, hcut⟩ := ih (offset + 1) (offset + ','.utf8Size) depth
        (done ++ pending ++ [',']) [] (by simp [hbody]) (by simp [hoffset]; rfl)
        (by simp [hoffset, Nat.add_assoc])
      have hpart : Text.slice start offset body = .ok pending := by
        rw [hbody, hstart, hoffset, Text.slice_append]
      refine ⟨[], first :: rest, by rw [splitParameters, if_pos hcomma, hsplit], ?_⟩
      rw [cutAtCommas, if_pos hcomma, hpart, List.append_nil]
      simp only [bind, Except.bind, hcut]
      rfl
    · obtain ⟨first, rest, hsplit, hcut⟩ := ih start (offset + c.utf8Size) (nextDepth depth c)
        done (pending ++ [c]) (by simp [hbody]) hstart (by simp [hoffset, Nat.add_assoc])
      refine ⟨c :: first, rest, splitParameters_cons hcomma hsplit, ?_⟩
      rw [cutAtCommas, if_neg hcomma, hcut, List.append_assoc, List.singleton_append]

/-- The parts of what stands in brackets, without the blanks around it. -/
def partsOf (body : List Char) : List (List Char) :=
  let body := Text.trim body
  if body.isEmpty then [] else splitParameters 0 body

/-- The parts are cut out at character boundaries. -/
theorem bodyParts_eq (body : List Char) : bodyParts body = .ok (partsOf body) := by
  have hbody : Text.trim body = [] ++ [] ++ Text.trim body := rfl
  obtain ⟨first, rest, hsplit, hcut⟩ := exists_cutAtCommas 0 0 0 [] [] hbody rfl rfl
  rw [bodyParts, partsOf]
  split
  · rfl
  · rw [hsplit]
    exact hcut

/-! ### The name and the body -/

/-- A name, a body in brackets, and blanks. -/
structure Framed (signature : String) (name body : List Char) : Prop where
  ne_nil : Text.trim name ≠ []
  notMem : '(' ∉ name
  exists_blanks : ∃ blanks : List Char, blanks.all Text.isBlank = true ∧
    signature.toList = name ++ '(' :: (body ++ ')' :: blanks)

theorem sliceFrom_opening (name rest : List Char) :
    Text.sliceFrom (Text.byteLength name + 1) (name ++ '(' :: rest) = .ok rest := by
  have hslice := Text.sliceFrom_append (name ++ ['(']) rest
  rwa [Text.byteLength_append, List.append_assoc, List.singleton_append] at hslice

/-- The name and the parts of the body are all that is read. -/
theorem parse_of_framed (h : Framed signature name body) : parse signature =
    (readParts signature (partsOf body)).map fun (ps, t) =>
      ⟨Text.lowerAscii (String.ofList (Text.trim name)), ps, t⟩ := by
  obtain ⟨blanks, hblanks, hsignature⟩ := h.exists_blanks
  have hclose : Text.trimEnd (body ++ ')' :: blanks) = body ++ [')'] := by
    rw [List.append_cons, Text.trimEnd_append hblanks]
    refine Text.trimEnd_of_last ?_
    rw [List.getLast?_concat]
    rfl
  unfold parse
  simp only [hsignature, Text.offset?_append h.notMem, sliceFrom_opening, Text.sliceTo_append,
    hclose, Text.dropEnding?_append, bodyParts_eq, liftCut, Except.mapError, List.isEmpty_iff,
    h.ne_nil, if_false, bind, Except.bind]
  rcases readParts signature (partsOf body) with error | ⟨ps, t⟩ <;> rfl

/-- What has no such frame is refused. -/
theorem framed_or_invalid (signature : String) : (∃ name body, Framed signature name body) ∨
    ∃ fault, parse signature = .error (.invalidSignature signature fault) := by
  by_cases hopen : '(' ∈ signature.toList
  · obtain ⟨name, rest, hsignature, hname⟩ := List.eq_append_cons_of_mem hopen
    have hoffset := Text.offset?_append hname rest
    have hrest := sliceFrom_opening name rest
    have hfront := Text.sliceTo_append name ('(' :: rest)
    rw [← hsignature] at hoffset hrest hfront
    cases hbody : Text.dropEnding? [')'] (Text.trimEnd rest) with
    | none =>
      right
      refine ⟨.missingClose, ?_⟩
      simp only [parse, hoffset, hrest, hbody, liftCut, Except.mapError, bind, Except.bind]
    | some body =>
      by_cases hne : Text.trim name = []
      · right
        refine ⟨.missingName, ?_⟩
        simp only [parse, hoffset, hrest, hfront, hbody, hne, liftCut, Except.mapError, bind,
          Except.bind]
        rfl
      · left
        obtain ⟨blanks, hblanks, hrest⟩ := Text.exists_trimEnd rest
        rw [Text.eq_of_dropEnding? hbody] at hrest
        refine ⟨name, body, hne, hname, blanks, hblanks, ?_⟩
        rw [hsignature, hrest, List.append_assoc, List.singleton_append]
  · right
    refine ⟨.missingOpen, ?_⟩
    simp only [parse, Text.offset?_of_notMem hopen]

end SqlResolution.Signature
