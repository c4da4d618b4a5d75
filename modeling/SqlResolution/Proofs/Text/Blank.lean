import Mathlib.Data.List.Basic
import SqlResolution.Text.Blank

/-!
# Trimmed texts

What trimming takes off a text and what it leaves.
-/
namespace SqlResolution.Text

/-- No blank at either end. -/
def IsTrimmed (cs : List Char) : Prop :=
  cs.head?.any isBlank = false ∧ cs.getLast?.any isBlank = false

instance (cs : List Char) : Decidable (IsTrimmed cs) := inferInstanceAs (Decidable (_ ∧ _))

theorem trimStart_of_head {cs : List Char} (h : cs.head?.any isBlank = false) :
    trimStart cs = cs := by
  cases cs with
  | nil => rfl
  | cons c cs =>
    have hc : isBlank c = false := h
    rw [trimStart, List.dropWhile_cons, hc]
    rfl

theorem trimEnd_of_last {cs : List Char} (h : cs.getLast?.any isBlank = false) :
    trimEnd cs = cs := by
  have hreverse : trimStart cs.reverse = cs.reverse := by
    refine trimStart_of_head ?_
    rwa [List.head?_reverse]
  rw [trimStart] at hreverse
  rw [trimEnd, hreverse, List.reverse_reverse]

theorem IsTrimmed.trim {cs : List Char} (h : IsTrimmed cs) : trim cs = cs := by
  rw [Text.trim, trimStart_of_head h.1, trimEnd_of_last h.2]

theorem IsTrimmed.append {cs ds : List Char} (hcs : IsTrimmed cs) (hds : IsTrimmed ds)
    (hcs' : cs ≠ []) (hds' : ds ≠ []) (between : List Char) :
    IsTrimmed (cs ++ between ++ ds) := by
  refine ⟨?_, ?_⟩
  · rw [List.append_assoc, List.head?_append_of_ne_nil _ hcs']
    exact hcs.1
  · rw [List.getLast?_append_of_ne_nil _ hds']
    exact hds.2

theorem trim_cons_blank {c : Char} (hc : isBlank c = true) (cs : List Char) :
    trim (c :: cs) = trim cs := by
  rw [trim, trim, trimStart, List.dropWhile_cons_of_pos hc, trimStart]

theorem isTrimmed_of_forall {cs : List Char} (h : ∀ c ∈ cs, isBlank c = false) :
    IsTrimmed cs := by
  constructor
  · cases hhead : cs.head? with
    | none => rfl
    | some c => exact h c (List.mem_of_head? hhead)
  · cases hlast : cs.getLast? with
    | none => rfl
    | some c => exact h c (List.mem_of_getLast? hlast)

theorem exists_trimStart (cs : List Char) :
    ∃ blanks : List Char, blanks.all isBlank ∧ cs = blanks ++ trimStart cs :=
  ⟨cs.takeWhile isBlank, List.all_takeWhile, List.takeWhile_append_dropWhile.symm⟩

theorem exists_trimEnd (cs : List Char) :
    ∃ blanks : List Char, blanks.all isBlank ∧ cs = trimEnd cs ++ blanks := by
  obtain ⟨blanks, hblanks, hcs⟩ := exists_trimStart cs.reverse
  refine ⟨blanks.reverse, by rwa [List.all_reverse], ?_⟩
  rw [trimEnd, ← List.reverse_append, ← List.reverse_inj, List.reverse_reverse]
  exact hcs

theorem trimStart_append {blanks : List Char} (h : blanks.all isBlank) (cs : List Char) :
    trimStart (blanks ++ cs) = trimStart cs :=
  List.dropWhile_append_of_pos (List.all_eq_true.mp h)

theorem trimStart_blank {blanks : List Char} (h : blanks.all isBlank) : trimStart blanks = [] := by
  simpa using trimStart_append h []

theorem trimStart_cons {c : Char} (h : isBlank c = false) (cs : List Char) :
    trimStart (c :: cs) = c :: cs :=
  trimStart_of_head h

theorem trimEnd_append {blanks : List Char} (h : blanks.all isBlank) (cs : List Char) :
    trimEnd (cs ++ blanks) = trimEnd cs := by
  rw [trimEnd, List.reverse_append, ← trimStart, trimStart_append (by rwa [List.all_reverse])]
  rfl

theorem trim_append_left {blanks : List Char} (h : blanks.all isBlank) (cs : List Char) :
    trim (blanks ++ cs) = trim cs := by
  rw [trim, trim, trimStart_append h]

/-- Taking the blanks off the front commutes with putting blanks at the end, unless nothing but
blanks is left. -/
theorem trimStart_append_right {cs : List Char} (h : trimStart cs ≠ []) (ds : List Char) :
    trimStart (cs ++ ds) = trimStart cs ++ ds := by
  induction cs with
  | nil => exact absurd rfl h
  | cons c cs ih =>
    cases hc : isBlank c with
    | false => rw [List.cons_append, trimStart_cons hc, trimStart_cons hc, List.cons_append]
    | true =>
      have hdrop : ∀ cs : List Char, trimStart (c :: cs) = trimStart cs :=
        fun cs => List.dropWhile_cons_of_pos hc
      rw [List.cons_append, hdrop, hdrop]
      exact ih (by rwa [hdrop] at h)

theorem trim_append_right {blanks : List Char} (h : blanks.all isBlank) (cs : List Char) :
    trim (cs ++ blanks) = trim cs := by
  by_cases hcs : trimStart cs = []
  · obtain ⟨front, hfront, heq⟩ := exists_trimStart cs
    rw [hcs, List.append_nil] at heq
    rw [trim, trim, trimStart_blank (by rw [List.all_append, heq, hfront, h]; rfl), hcs]
  · rw [trim, trimStart_append_right hcs, trimEnd_append h, trim]

theorem trim_trimStart (cs : List Char) : trim (trimStart cs) = trim cs := by
  obtain ⟨blanks, hblanks, hcs⟩ := exists_trimStart cs
  conv_rhs => rw [hcs, trim_append_left hblanks]

/-- What is trimmed off a text. -/
theorem exists_trim (cs : List Char) :
    ∃ before after : List Char, before.all isBlank ∧ after.all isBlank ∧
      cs = before ++ trim cs ++ after := by
  obtain ⟨before, hbefore, hcs⟩ := exists_trimStart cs
  obtain ⟨after, hafter, hrest⟩ := exists_trimEnd (trimStart cs)
  refine ⟨before, after, hbefore, hafter, ?_⟩
  rw [trim, List.append_assoc, ← hrest]
  exact hcs

theorem head?_trimStart (cs : List Char) : (trimStart cs).head?.any isBlank = false := by
  have hhead := List.head?_dropWhile_not isBlank cs
  rw [← trimStart] at hhead
  cases hfirst : (trimStart cs).head? with
  | none => rfl
  | some c =>
    rw [hfirst] at hhead
    exact hhead

theorem isTrimmed_trim (cs : List Char) : IsTrimmed (trim cs) := by
  constructor
  · by_cases hne : trim cs = []
    · rw [hne]
      rfl
    · obtain ⟨blanks, -, hsplit⟩ := exists_trimEnd (trimStart cs)
      have hhead := head?_trimStart cs
      rwa [hsplit, ← trim, List.head?_append_of_ne_nil _ hne] at hhead
  · rw [trim, trimEnd, List.getLast?_reverse]
    exact head?_trimStart _

end SqlResolution.Text
