/-!
# Cutting texts

What stands before an ending, after an opening, or on both sides of a mark, and the length of a
text in bytes.
-/
namespace SqlResolution.Text

-- Sums start from the core zero, also where another instance is in scope.
attribute [local instance (high)] Zero.ofOfNat0

/-- What stands before `ending`, for a text that ends so. -/
def dropEnding? (ending cs : List Char) : Option (List Char) :=
  if ending.isSuffixOf cs then some (cs.take (cs.length - ending.length)) else none

/-- What stands after `opening`, for a text that starts so. -/
def dropOpening? (opening cs : List Char) : Option (List Char) :=
  if opening.isPrefixOf cs then some (cs.drop opening.length) else none

/-- What stands before and after the first `mark`. -/
def splitOnce? (mark : Char) (cs : List Char) : Option (List Char × List Char) :=
  match cs.dropWhile (· != mark) with
  | [] => none
  | _ :: rest => some (cs.takeWhile (· != mark), rest)

/-- The length of a text in bytes of UTF-8. -/
def byteLength (cs : List Char) : Nat := (cs.map Char.utf8Size).sum

theorem forall_bne_of_notMem {mark : Char} {cs : List Char} (h : mark ∉ cs) :
    ∀ c ∈ cs, (c != mark) = true := by
  intro c hc
  simp only [bne_iff_ne, ne_eq]
  rintro rfl
  exact h hc

/-- A text without the mark is not cut. -/
theorem splitOnce?_of_notMem {mark : Char} {cs : List Char} (h : mark ∉ cs) :
    splitOnce? mark cs = none := by
  have hdrop : cs.dropWhile (· != mark) = [] := by
    rw [← List.append_nil cs, List.dropWhile_append_of_pos (forall_bne_of_notMem h),
      List.dropWhile_nil]
  rw [splitOnce?, hdrop]

theorem splitOnce?_append {mark : Char} {front : List Char} (h : mark ∉ front) (rest : List Char) :
    splitOnce? mark (front ++ mark :: rest) = some (front, rest) := by
  have hmark : ¬(mark != mark) = true := by simp
  unfold splitOnce?
  rw [List.dropWhile_append_of_pos (forall_bne_of_notMem h),
    List.takeWhile_append_of_pos (forall_bne_of_notMem h), List.dropWhile_cons, if_neg hmark,
    List.takeWhile_cons, if_neg hmark, List.append_nil]

theorem dropEnding?_append (ending cs : List Char) :
    dropEnding? ending (cs ++ ending) = some cs := by
  simp [dropEnding?]

theorem dropOpening?_append (opening cs : List Char) :
    dropOpening? opening (opening ++ cs) = some cs := by
  simp [dropOpening?]

theorem eq_of_dropOpening? {opening cs rest : List Char}
    (h : dropOpening? opening cs = some rest) : cs = opening ++ rest := by
  unfold dropOpening? at h
  split at h
  · rename_i hopening
    cases h
    obtain ⟨rest, rfl⟩ := List.isPrefixOf_iff_prefix.mp hopening
    rw [List.drop_left]
  · cases h

theorem eq_of_dropEnding? {ending cs front : List Char}
    (h : dropEnding? ending cs = some front) : cs = front ++ ending := by
  unfold dropEnding? at h
  split at h
  · rename_i hending
    cases h
    obtain ⟨front, rfl⟩ := List.isSuffixOf_iff_suffix.mp hending
    rw [List.length_append, Nat.add_sub_cancel, List.take_left]
  · cases h

end SqlResolution.Text
