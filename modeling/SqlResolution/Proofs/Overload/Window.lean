import Mathlib.Data.List.Nodup
import SqlResolution.Proofs.Overload.Scoring

/-!
# A function and its window form

Two overloads of one signature, of which one is a window function, match the same arguments. The one
that suits the window context of a call keeps its level, and a window function scores lower there.
The other matches loosely. So it is chosen at most where both match loosely and for the same, which
is outside window clauses, and where it comes first.
-/
namespace SqlResolution

namespace Candidate

variable {cs : List Candidate} {c c' w : Candidate}

theorem eq_of_place_eq (hsorted : cs.Pairwise (·.place < ·.place)) (hc : c ∈ cs) (hc' : c' ∈ cs)
    (hplace : c.place = c'.place) : c = c' := by
  have hnodup : (cs.map place).Nodup := List.pairwise_map.mpr (hsorted.imp Nat.ne_of_lt)
  exact List.inj_on_of_nodup_map hnodup hc hc' hplace

namespace IsChoice

/-- A candidate that matches loosely is chosen where no other matches better or for less, unless it
is of another arity. -/
theorem least_of_fuzzy (h : IsChoice cs w) (hw : w.level = .fuzzy) (hc : c ∈ cs)
    (hmatch : c.level ≠ .noMatch) (hvariadic : c.isVariadic = w.isVariadic) :
    c.level = .fuzzy ∧ w.points ≤ c.points := by
  cases h with
  | exact level _ =>
    rw [hw] at level
    cases level
  | leader _ top leads =>
    have hlevel : c.level = .fuzzy := by
      have hrank := top c hc
      rw [hw] at hrank
      revert hrank hmatch
      cases c.level <;> decide
    exact ⟨hlevel, leads.least hc (hlevel.trans hw.symm) fun hc => hvariadic.symm.trans hc⟩

/-- Of candidates that match loosely and for the same, the first is chosen. -/
theorem place_lt_of_fuzzy (h : IsChoice cs w) (hsorted : cs.Pairwise (·.place < ·.place))
    (hw : w.level = .fuzzy) (hc : c ∈ cs) (hlevel : c.level = .fuzzy)
    (hvariadic : c.isVariadic = w.isVariadic) (hpoints : c.points = w.points) (hne : c ≠ w) :
    w.place < c.place := by
  have hfirst : FirstLeast (IsOf .fuzzy w.isVariadic) cs w := by
    cases h with
    | exact level _ =>
      rw [hw] at level
      cases level
    | leader _ _ leads =>
      rw [hw] at leads
      cases leads with
      | fixed _ first =>
        rw [first.1.2]
        exact first
      | variadic _ first =>
        rw [first.1.2]
        exact first
  obtain ⟨-, before, after, rfl, hbefore, -⟩ := hfirst
  obtain hc | hc := List.mem_append.mp hc
  · have hless := hbefore c hc ⟨hlevel, hvariadic⟩
    omega
  · obtain rfl | hc := List.mem_cons.mp hc
    · exact absurd rfl hne
    · exact (List.pairwise_cons.mp (List.pairwise_append.mp hsorted).2.1).1 c hc

end IsChoice
end Candidate

namespace Overload

/-- A window function, and a function that is none, of one signature. -/
structure IsWindowPair (p w : Overload) : Prop where
  plain : p.isWindow = false
  window : w.isWindow = true
  parameters : w.signature.parameters = p.signature.parameters
  tail : w.signature.tail = p.signature.tail
  charFitsString : w.factory.charFitsString = p.factory.charFitsString

namespace IsWindowPair

variable {p w : Overload}

theorem rawScore?_eq (h : p.IsWindowPair w) (binds : BindTable) (isCast : Bool) (args : Args) :
    w.rawScore? binds isCast args = p.rawScore? binds isCast args := by
  unfold rawScore? Signature.fixedCount
  rw [h.parameters, h.charFitsString]

theorem isVariadic_eq (h : p.IsWindowPair w) : w.signature.isVariadic = p.signature.isVariadic := by
  rw [Signature.isVariadic, Signature.isVariadic, h.tail]

theorem acceptsArity_eq (h : p.IsWindowPair w) (count : Nat) :
    w.signature.acceptsArity count = p.signature.acceptsArity count := by
  rw [Signature.acceptsArity, Signature.acceptsArity, h.isVariadic_eq, Signature.fixedCount,
    Signature.fixedCount, h.parameters]

theorem ne_of_getElem? (h : p.IsWindowPair w) {os : List Overload} {i j : Nat}
    (hp : os[i]? = some p) (hw : os[j]? = some w) : i ≠ j := by
  rintro rfl
  have hwindow := h.window
  rw [Option.some.inj (hw.symm.trans hp), h.plain] at hwindow
  cases hwindow

end IsWindowPair

section Scan

variable {p w : Overload} {os : List Overload} {i j : Nat} {binds : BindTable}
  {isCast inWindow : Bool} {args : Args}

/-- Where one of the two is in the running, both are, with scores made of the same. -/
theorem IsWindowPair.exists_candidates (hpair : p.IsWindowPair w) (hp : os[i]? = some p)
    (hw : os[j]? = some w)
    (hsame : ∀ args', args.Each Evaluator.Reevaluated args' →
      p.rawScore? binds isCast args' = p.rawScore? binds isCast args) {c : Candidate}
    (hc : c ∈ candidates binds isCast inWindow 0 os args) (hplace : c.place = i ∨ c.place = j) :
    ∃ s cp cw, p.rawScore? binds isCast args = some s ∧ s.level ≠ .noMatch ∧
      (cp ∈ candidates binds isCast inWindow 0 os args ∧ cp.place = i ∧
        cp.score = adjustForWindow false inWindow s) ∧
      (cw ∈ candidates binds isCast inWindow 0 os args ∧ cw.place = j ∧
        cw.score = adjustForWindow true inWindow s) ∧
      cw.isVariadic = cp.isVariadic := by
  have hscore : ∀ args', args.Each Evaluator.Reevaluated args' →
      (p.score binds isCast inWindow args').1 =
          ((p.rawScore? binds isCast args).map (adjustForWindow false inWindow)).getD .noMatch ∧
        (w.score binds isCast inWindow args').1 =
          ((p.rawScore? binds isCast args).map (adjustForWindow true inWindow)).getD .noMatch := by
    intro args' hargs'
    rw [fst_score, fst_score, hpair.rawScore?_eq, hsame args' hargs', hpair.plain, hpair.window]
    exact ⟨rfl, rfl⟩
  obtain ⟨k, o, args', hk, hindex, harity, hargs', hcscore, hno, -⟩ :=
    exists_scored_of_mem_candidates hc
  rw [hindex, Nat.zero_add] at hplace
  have ho : o = p ∨ o = w := by
    obtain rfl | rfl := hplace
    · exact .inl (Option.some.inj (hk.symm.trans hp))
    · exact .inr (Option.some.inj (hk.symm.trans hw))
  have harity : p.signature.acceptsArity args.size = true := by
    obtain rfl | rfl := ho
    · exact harity
    · exact (hpair.acceptsArity_eq _).symm.trans harity
  cases hraw : p.rawScore? binds isCast args with
  | none =>
    refine absurd ?_ hno
    rw [hraw] at hscore
    rw [Candidate.level, hcscore]
    obtain rfl | rfl := ho
    · rw [(hscore args' hargs').1]
      rfl
    · rw [(hscore args' hargs').2]
      rfl
  | some s =>
    have hlevel := p.level_rawScore?_ne_noMatch binds isCast hraw
    rw [hraw] at hscore
    have hplain : ∀ args', args.Each Evaluator.Reevaluated args' →
        (p.score binds isCast inWindow args').1.level ≠ .noMatch := by
      intro args' hargs'
      rw [(hscore args' hargs').1]
      exact level_adjustForWindow_ne_noMatch hlevel false inWindow
    have hwindow : ∀ args', args.Each Evaluator.Reevaluated args' →
        (w.score binds isCast inWindow args').1.level ≠ .noMatch := by
      intro args' hargs'
      rw [(hscore args' hargs').2]
      exact level_adjustForWindow_ne_noMatch hlevel true inWindow
    obtain ⟨cp, hcp, args₁, hplace₁, hargs₁, hscore₁, hvariadic₁⟩ :=
      exists_candidate (i := 0) hp harity hplain
    obtain ⟨cw, hcw, args₂, hplace₂, hargs₂, hscore₂, hvariadic₂⟩ :=
      exists_candidate (i := 0) hw ((hpair.acceptsArity_eq _).trans harity) hwindow
    refine ⟨s, cp, cw, rfl, hlevel, ⟨hcp, hplace₁.trans (Nat.zero_add i), ?_⟩,
      ⟨hcw, hplace₂.trans (Nat.zero_add j), ?_⟩, ?_⟩
    · exact hscore₁.trans (hscore args₁ hargs₁).1
    · exact hscore₂.trans (hscore args₂ hargs₂).2
    · rw [hvariadic₁, hvariadic₂, hpair.isVariadic_eq]

/-- Inside a window clause the function that is no window function is not chosen. -/
theorem IsWindowPair.winner_ne_plain (hpair : p.IsWindowPair w) (hp : os[i]? = some p)
    (hw : os[j]? = some w)
    (hsame : ∀ args', args.Each Evaluator.Reevaluated args' →
      p.rawScore? binds isCast args' = p.rawScore? binds isCast args) :
    (scan binds isCast true 0 os .start args).1.winner ≠ some i := by
  intro hwinner
  obtain ⟨c, hchoice, hplace⟩ := exists_choice_of_winner hwinner
  obtain ⟨s, cp, cw, -, hlevel, ⟨hcp, hplace₁, hscore₁⟩, ⟨hcw, -, hscore₂⟩, hvariadic⟩ :=
    hpair.exists_candidates hp hw hsame hchoice.mem (.inl hplace)
  obtain rfl := Candidate.eq_of_place_eq pairwise_place_candidates hchoice.mem hcp
    (hplace.trans hplace₁.symm)
  have hfuzzy : c.level = .fuzzy := congrArg CandidateScore.level hscore₁
  have hmatch : cw.level ≠ .noMatch := by
    rw [Candidate.level, hscore₂]
    exact hlevel
  -- The window function costs less by its bonus.
  obtain ⟨-, hpoints⟩ := hchoice.least_of_fuzzy hfuzzy hcw hmatch hvariadic
  rw [Candidate.points, Candidate.points, hscore₁, hscore₂] at hpoints
  exact absurd hpoints (Int.not_le.mpr (Int.sub_lt_self s.score (by decide)))

/-- Outside window clauses the window function is chosen at most where it comes first and both match
loosely. -/
theorem IsWindowPair.loose_of_winner (hpair : p.IsWindowPair w) (hp : os[i]? = some p)
    (hw : os[j]? = some w)
    (hsame : ∀ args', args.Each Evaluator.Reevaluated args' →
      p.rawScore? binds isCast args' = p.rawScore? binds isCast args)
    (hwinner : (scan binds isCast false 0 os .start args).1.winner = some j) :
    j < i ∧ (p.score binds isCast false args).1.level = .fuzzy := by
  obtain ⟨c, hchoice, hplace⟩ := exists_choice_of_winner hwinner
  obtain ⟨s, cp, cw, hraw, hlevel, ⟨hcp, hplace₁, hscore₁⟩, ⟨hcw, hplace₂, hscore₂⟩, hvariadic⟩ :=
    hpair.exists_candidates hp hw hsame hchoice.mem (.inr hplace)
  obtain rfl := Candidate.eq_of_place_eq pairwise_place_candidates hchoice.mem hcw
    (hplace.trans hplace₂.symm)
  have hfuzzy : c.level = .fuzzy := congrArg CandidateScore.level hscore₂
  have hmatch : cp.level ≠ .noMatch := by
    rw [Candidate.level, hscore₁]
    exact hlevel
  obtain ⟨hloose, -⟩ := hchoice.least_of_fuzzy hfuzzy hcp hmatch hvariadic.symm
  have hpoints : cp.points = c.points := by
    rw [Candidate.points, Candidate.points, hscore₁, hscore₂]
    rfl
  have hne : cp ≠ c := by
    rintro rfl
    exact hpair.ne_of_getElem? hp hw (hplace₁.symm.trans hplace₂)
  have hlt := hchoice.place_lt_of_fuzzy pairwise_place_candidates hfuzzy hcp hloose hvariadic.symm
    hpoints hne
  refine ⟨by omega, ?_⟩
  rw [fst_score, hraw, hpair.plain, Option.map_some, Option.getD_some, ← hscore₁]
  exact hloose

/-- Outside window clauses the other is not chosen where the window function comes first and both
match loosely. -/
theorem IsWindowPair.winner_ne_plain_of_loose (hpair : p.IsWindowPair w) (hp : os[i]? = some p)
    (hw : os[j]? = some w)
    (hsame : ∀ args', args.Each Evaluator.Reevaluated args' →
      p.rawScore? binds isCast args' = p.rawScore? binds isCast args) (hfirst : j < i)
    (hloose : (p.score binds isCast false args).1.level = .fuzzy) :
    (scan binds isCast false 0 os .start args).1.winner ≠ some i := by
  intro hwinner
  obtain ⟨c, hchoice, hplace⟩ := exists_choice_of_winner hwinner
  obtain ⟨s, cp, cw, hraw, -, ⟨hcp, hplace₁, hscore₁⟩, ⟨hcw, hplace₂, hscore₂⟩, hvariadic⟩ :=
    hpair.exists_candidates hp hw hsame hchoice.mem (.inl hplace)
  obtain rfl := Candidate.eq_of_place_eq pairwise_place_candidates hchoice.mem hcp
    (hplace.trans hplace₁.symm)
  rw [fst_score, hraw, hpair.plain, Option.map_some, Option.getD_some, ← hscore₁] at hloose
  have hpoints : cw.points = c.points := by
    rw [Candidate.points, Candidate.points, hscore₁, hscore₂]
    rfl
  have hne : cw ≠ c := by
    rintro rfl
    exact hpair.ne_of_getElem? hp hw (hplace₁.symm.trans hplace₂)
  have hlt := hchoice.place_lt_of_fuzzy pairwise_place_candidates hloose hcw
    (congrArg CandidateScore.level hscore₂) hvariadic hpoints hne
  omega

end Scan

end Overload
end SqlResolution
