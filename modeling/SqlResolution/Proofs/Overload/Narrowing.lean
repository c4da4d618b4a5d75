import SqlResolution.Proofs.Overload.Selection

/-!
# Considering fewer candidates

A tracker that passes some candidates over keeps up with one that considers them all, unless one of
those that it passes over takes the lead and keeps it.
-/
namespace SqlResolution.CandidateTracker

variable {t u : CandidateTracker} {c : Candidate}

/-- A tracker leads by a candidate that is at least as good as another's. -/
def IsAheadOf (t u : CandidateTracker) : Prop :=
  u.best < t.best ∨ u.best = t.best ∧ t.score ≤ u.score

theorem consider_noMatch (t : CandidateTracker) (h : c.level = .noMatch) : t.consider c = t := by
  have hscore : c.score.level = .noMatch := h
  simp [consider, offer, hscore]

/-- What an inexact candidate of fixed arity does: nothing, or it takes the lead. -/
theorem consider_fixed (t : CandidateTracker) (hfixed : c.isVariadic = false)
    (hinexact : c.level ≠ .exact) :
    (t.consider c = t ∧
      (c.level = .noMatch ∨ c.level < t.best ∨ c.level = t.best ∧ t.score ≤ c.points)) ∨
    (t.consider c = ⟨c.level, some c.place, false, c.points⟩ ∧ c.level ≠ .noMatch ∧
      (t.best < c.level ∨ c.level = t.best ∧ c.points < t.score)) := by
  obtain ⟨hsame, hskip⟩ | ⟨-, hexact, -⟩ | ⟨hlead, hmatch, -, hbetter⟩ := t.consider_cases c
  · refine .inl ⟨hsame, hskip.imp_right (Or.imp_right fun ⟨hlevel, hwhy⟩ => ⟨hlevel, ?_⟩)⟩
    obtain ⟨hvariadic, -⟩ | ⟨-, hscore⟩ := hwhy
    · rw [hfixed] at hvariadic
      cases hvariadic
    · exact hscore
  · exact absurd hexact hinexact
  · rw [hfixed] at hlead
    exact .inr ⟨hlead, hmatch, hbetter.imp_right fun ⟨hlevel, _, hscore⟩ => ⟨hlevel, hscore⟩⟩

/-- A tracker that is ahead stays ahead of one that considers the same candidate, or both come to
be led by it. -/
theorem IsAheadOf.consider (h : t.IsAheadOf u) (hfixed : c.isVariadic = false)
    (hinexact : c.level ≠ .exact) :
    t.consider c = u.consider c ∨ t.consider c = t ∧ t.IsAheadOf (u.consider c) := by
  unfold IsAheadOf at h ⊢
  simp only [MatchLevel.lt_iff, ← MatchLevel.rank_inj] at h ⊢
  obtain ⟨ht, hskip⟩ | ⟨ht, hmatch, hlead⟩ := t.consider_fixed hfixed hinexact
  · refine .inr ⟨ht, ?_⟩
    obtain ⟨hu, -⟩ | ⟨hu, hmatch, -⟩ := u.consider_fixed hfixed hinexact
    · rw [hu]
      exact h
    · simp only [hu, MatchLevel.lt_iff, ← MatchLevel.rank_inj] at hskip ⊢
      obtain hno | hlow | hsame := hskip
      · exact absurd (MatchLevel.rank_inj.mp hno) hmatch
      · exact .inl hlow
      · exact .inr hsame
  · obtain ⟨hu, hskip⟩ | ⟨hu, -, -⟩ := u.consider_fixed hfixed hinexact
    · simp only [MatchLevel.lt_iff, ← MatchLevel.rank_inj] at hskip hlead
      obtain hno | hlow | hsame := hskip
      · exact absurd (MatchLevel.rank_inj.mp hno) hmatch
      · omega
      · omega
    · exact .inl (ht.trans hu.symm)

/-- Two trackers are even, or the first is ahead by a candidate of some kind. -/
def LeadsBy (IsForeign : Nat → Prop) (t u : CandidateTracker) : Prop :=
  t = u ∨ (∃ place, t.winner = some place ∧ IsForeign place) ∧ t.IsAheadOf u

namespace LeadsBy

variable {IsForeign : Nat → Prop}

/-- A candidate that both consider makes them even, or changes nothing between them. -/
theorem consider (h : t.LeadsBy IsForeign u) (hfixed : c.isVariadic = false)
    (hinexact : c.level ≠ .exact) : (t.consider c).LeadsBy IsForeign (u.consider c) := by
  obtain rfl | ⟨hwinner, hahead⟩ := h
  · exact .inl rfl
  · obtain heven | ⟨hsame, hahead⟩ := hahead.consider hfixed hinexact
    · exact .inl heven
    · rw [hsame]
      exact .inr ⟨hwinner, hahead⟩

/-- A candidate of the kind that the second passes over leaves the first even or ahead. -/
theorem consider_left (h : t.LeadsBy IsForeign u) (hfixed : c.isVariadic = false)
    (hinexact : c.level ≠ .exact) (hforeign : IsForeign c.place) :
    (t.consider c).LeadsBy IsForeign u := by
  obtain ⟨ht, -⟩ | ⟨ht, -, hlead⟩ := t.consider_fixed hfixed hinexact
  · rw [ht]
    exact h
  · have heven : t = u ∨ t.IsAheadOf u := h.imp_right And.right
    refine .inr ⟨⟨c.place, by rw [ht], hforeign⟩, ?_⟩
    unfold IsAheadOf at heven ⊢
    simp only [ht, MatchLevel.lt_iff, ← MatchLevel.rank_inj] at heven hlead ⊢
    obtain rfl | heven := heven
    · omega
    · omega

end LeadsBy
end SqlResolution.CandidateTracker
