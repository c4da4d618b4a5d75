import SqlResolution.Proofs.Overload.Choice

/-!
# The winner of any offers

A tracker may be offered candidates after an exact one. Of the exact ones it keeps the last of fixed
arity, and the last of all where none has fixed arity, whatever they score. So its winner can be
told for every sequence of offers.
-/
namespace SqlResolution

namespace Candidate

/-- The candidate, between those that were offered before it and after it, that wins. -/
inductive Wins (before : List Candidate) (w : Candidate) (after : List Candidate) : Prop where
  /-- The last exact candidate of fixed arity. -/
  | exactFixed (of : w.IsOf .exact false) (last : ∀ c ∈ after, ¬c.IsOf .exact false)
  /-- The last exact candidate, where none has fixed arity. -/
  | exactVariadic (of : w.IsOf .exact true) (noFixed : ∀ c ∈ before ++ after, ¬c.IsOf .exact false)
      (last : ∀ c ∈ after, c.level ≠ .exact)
  /-- The earliest of those with the score that leads at the highest level, which is below exact. -/
  | inexact (some : w.level ≠ .noMatch) (below : w.level ≠ .exact)
      (top : ∀ c ∈ before ++ after, c.level.rank ≤ w.level.rank)
      (leads : Leads w.level (before ++ w :: after) w)
      (earliest : ∀ c ∈ before, c.IsOf w.level w.isVariadic → w.points < c.points)

variable {before after cs : List Candidate} {w c : Candidate}

theorem Wins.ne_noMatch (h : Wins before w after) : w.level ≠ .noMatch := by
  cases h with
  | exactFixed of _ | exactVariadic of _ _ =>
    rw [of.1]
    exact nofun
  | inexact some _ _ _ _ => exact some

/-- An exact candidate wins where no fixed one was exact before it, unless it is fixed itself, and
the exact ones after it are variadic and it is not. -/
theorem wins_exact_iff (hw : w.level = .exact) :
    Wins before w after ↔
      (w.isVariadic = true → ∀ c ∈ before, ¬c.IsOf .exact false) ∧
        ∀ c ∈ after, c.level = .exact → c.isVariadic = true ∧ w.isVariadic = false := by
  constructor
  · intro h
    cases h with
    | exactFixed of last =>
      refine ⟨fun hv => by simp [of.2] at hv, fun c hc hexact => ⟨?_, of.2⟩⟩
      exact eq_true_of_ne_false fun hv => last c hc ⟨hexact, hv⟩
    | exactVariadic of noFixed last =>
      exact ⟨fun _ c hc => noFixed c (List.mem_append_left _ hc),
        fun c hc hexact => absurd hexact (last c hc)⟩
    | inexact _ below _ _ _ => exact absurd hw below
  · rintro ⟨hbefore, hafter⟩
    cases hv : w.isVariadic with
    | false =>
      refine .exactFixed ⟨hw, hv⟩ fun c hc hof => ?_
      simpa [hof.2] using (hafter c hc hof.1).1
    | true =>
      have hlast : ∀ c ∈ after, c.level ≠ .exact := fun c hc hexact => by
        simpa [hv] using (hafter c hc hexact).2
      refine .exactVariadic ⟨hw, hv⟩ (fun c hc hof => ?_) hlast
      obtain hc | hc := List.mem_append.mp hc
      · exact hbefore hv c hc hof
      · exact hlast c hc hof.1

/-- The exact candidate that wins is variadic where no fixed one is exact. -/
theorem Wins.isVariadic_iff (h : Wins before w after) (hw : w.level = .exact) :
    w.isVariadic = true ↔ ∀ c ∈ before ++ w :: after, ¬c.IsOf .exact false := by
  rw [wins_exact_iff hw] at h
  constructor
  · intro hv c hc hof
    obtain hc | rfl | hc := List.mem_append.mp hc |>.imp_right List.mem_cons.mp
    · exact h.1 hv c hc hof
    · simp [hof.2] at hv
    · simpa [hv] using (h.2 c hc hof.1).2
  · intro hnone
    exact eq_true_of_ne_false fun hv => hnone w (by simp) ⟨hw, hv⟩

/-- The candidate that leads at a level stands first among its equals somewhere. -/
theorem Leads.exists_wins (h : Leads w.level cs w) (hsome : w.level ≠ .noMatch)
    (hbelow : w.level ≠ .exact) (htop : ∀ c ∈ cs, c.level.rank ≤ w.level.rank) :
    ∃ before after, cs = before ++ w :: after ∧ Wins before w after := by
  have hfirst : FirstLeast (IsOf w.level w.isVariadic) cs w := by
    cases h with
    | fixed _ first | variadic _ first =>
      rw [first.1.2]
      exact first
  obtain ⟨-, before, after, rfl, hb, -⟩ := hfirst
  refine ⟨before, after, rfl, .inexact hsome hbelow (fun c hc => htop c ?_) h hb⟩
  simp only [List.mem_append, List.mem_cons] at hc ⊢
  exact hc.imp_right .inr

end Candidate

namespace CandidateTracker

open Candidate (Wins)

variable {cs : List Candidate} {c : Candidate}

/-- The tracker after candidates were offered in turn. -/
def afterOffers (cs : List Candidate) : CandidateTracker := cs.foldl consider start

theorem afterOffers_concat (cs : List Candidate) (c : Candidate) :
    afterOffers (cs ++ [c]) = (afterOffers cs).consider c := by
  simp [afterOffers]

theorem tracks_afterOffers (cs : List Candidate) : Tracks cs (afterOffers cs) := by
  have htracks := tracks_start.foldl cs
  rwa [List.nil_append] at htracks

/-- Where the best level is below exact, nothing exact was offered. -/
theorem level_ne_exact_of_best (h : (afterOffers cs).best ≠ .exact) :
    ∀ c ∈ cs, c.level ≠ .exact := by
  intro c hc hexact
  have hle := (tracks_afterOffers cs).bound c hc
  rw [hexact] at hle
  exact h (MatchLevel.rank_inj.mp (Nat.le_antisymm (MatchLevel.rank_le _) hle))

/-- Where the best level is exact, the tracker leads with the exact candidate that wins. -/
theorem exists_wins_of_exact (h : (afterOffers cs).best = .exact) :
    ∃ before w after, cs = before ++ w :: after ∧ w.level = .exact ∧ Wins before w after ∧
      (afterOffers cs).winner = some w.place ∧
      (afterOffers cs).winnerIsVariadic = w.isVariadic := by
  induction cs using List.reverseRecOn with
  | nil => cases h
  | append_singleton cs c ih =>
    rw [afterOffers_concat] at h ⊢
    obtain ⟨he, hskip⟩ | ⟨he, hexact, hveto⟩ | ⟨he, -, hne, -⟩ := (afterOffers cs).consider_cases c
    · rw [he] at h ⊢
      obtain ⟨before, w, after, rfl, hw, hwins, hplace, hvariadic⟩ := ih h
      -- An exact candidate is passed over only where it is variadic and the leader is not.
      have hc : c.level = .exact → c.isVariadic = true ∧ w.isVariadic = false := by
        intro hc
        rw [h, hc, MatchLevel.lt_iff, hvariadic] at hskip
        simpa using hskip
      rw [Candidate.wins_exact_iff hw] at hwins
      refine ⟨before, w, after ++ [c], by simp, hw, ?_, hplace, hvariadic⟩
      refine (Candidate.wins_exact_iff hw).mpr ⟨hwins.1, fun d hd => ?_⟩
      obtain hd | rfl := List.mem_append.mp hd |>.imp_right List.mem_singleton.mp
      · exact hwins.2 d hd
      · exact hc
    · rw [he]
      refine ⟨cs, c, [], rfl, hexact, ?_, rfl, rfl⟩
      refine (Candidate.wins_exact_iff hexact).mpr ⟨fun hv d hd hof => ?_, by simp⟩
      by_cases hbest : (afterOffers cs).best = .exact
      · obtain ⟨before, w, after, rfl, hw, hwins, -, hvariadic⟩ := ih hbest
        rw [hvariadic] at hveto
        exact (hwins.isVariadic_iff hw).mp (hveto hbest hv) d hd hof
      · exact level_ne_exact_of_best hbest d hd hof.1
    · rw [he] at h
      exact absurd h hne

/-- The tracker leads with a variadic exact candidate where no fixed one was exact. -/
theorem winnerIsVariadic_iff :
    ((afterOffers cs).best = .exact → (afterOffers cs).winnerIsVariadic = true) ↔
      ∀ d ∈ cs, ¬d.IsOf .exact false := by
  by_cases hbest : (afterOffers cs).best = .exact
  · obtain ⟨before, w, after, rfl, hw, hwins, -, hvariadic⟩ := exists_wins_of_exact hbest
    rw [hvariadic, ← hwins.isVariadic_iff hw]
    exact imp_iff_right hbest
  · exact iff_of_true (fun h => absurd h hbest) fun d hd hof =>
      level_ne_exact_of_best hbest d hd hof.1

/-- A tracker leads with the candidate that wins, if any candidate matched. -/
theorem choice_of_offers (cs : List Candidate) :
    (afterOffers cs).best = .noMatch ∧ (afterOffers cs).winner = none ∨
      ∃ before w after, cs = before ++ w :: after ∧ Wins before w after ∧
        (afterOffers cs).best = w.level ∧ (afterOffers cs).winner = some w.place := by
  have htracks := tracks_afterOffers cs
  by_cases hnone : (afterOffers cs).best = .noMatch
  · exact .inl ⟨hnone, by rw [htracks.start hnone]; rfl⟩
  by_cases hexact : (afterOffers cs).best = .exact
  · obtain ⟨before, w, after, hcs, hw, hwins, hwinner, -⟩ := exists_wins_of_exact hexact
    exact .inr ⟨before, w, after, hcs, hwins, hexact.trans hw.symm, hwinner⟩
  · obtain ⟨w, hleads, ht⟩ := htracks.leader hnone hexact
    have hlevel := hleads.level_eq
    rw [← hlevel] at hleads hnone hexact
    obtain ⟨before, after, hcs, hwins⟩ :=
      hleads.exists_wins hnone hexact (hlevel ▸ htracks.bound)
    exact .inr ⟨before, w, after, hcs, hwins, hlevel.symm, by rw [ht]⟩

/-- An offer ends the search where it is exact, suits the window context and takes the lead. -/
theorem isOver_offer (t : CandidateTracker) (c : Candidate) :
    (t.offer c.place c.score c.isVariadic c.suitsWindow).2 = true ↔
      c.level = .exact ∧ c.suitsWindow = true ∧
        (t.best = .exact → c.isVariadic = true → t.winnerIsVariadic = true) := by
  have hlevel : c.score.level = c.level := rfl
  simp only [offer, hlevel]
  by_cases hc : c.level = .exact
  · have hlow : (MatchLevel.exact == .noMatch || decide (MatchLevel.exact < t.best)) = false := by
      have := t.best.rank_le
      simp only [reduceCtorEq, Bool.or_eq_false_iff, beq_eq_false_iff_ne, ne_eq,
        not_false_eq_true, decide_eq_false_iff_not, MatchLevel.lt_iff, true_and]
      omega
    rw [hc, hlow, if_neg Bool.false_ne_true]
    split
    · rename_i hveto
      simp only [Bool.and_eq_true, beq_iff_eq, Bool.not_eq_true'] at hveto
      obtain ⟨⟨hbest, hv⟩, hleader⟩ := hveto
      simp [← hbest, hv, hleader]
    · rename_i hveto
      simp only [Bool.and_eq_true, beq_iff_eq, Bool.not_eq_true', not_and,
        Bool.not_eq_false] at hveto
      have htakes : t.best = .exact → c.isVariadic = true → t.winnerIsVariadic = true :=
        fun hbest hv => hveto ⟨hbest.symm, hv⟩
      rw [if_pos (beq_self_eq_true MatchLevel.exact)]
      simp only [true_and, and_iff_left htakes]
  · simp only [hc, beq_iff_eq, if_false, false_and, iff_false]
    split_ifs <;> exact not_false

/-- After any offers, also such as follow one that ends the search, the best level is the highest
that was offered. There is no winner where nothing matched. Otherwise the winner is of the best
level: the last exact candidate of fixed arity or, where none has, the last exact one; and below
exact the one that leads at its level. An offer ends the search where it is exact, suits the window
context and becomes the winner. -/
theorem winner_of_offers (cs : List Candidate) :
    (∀ c ∈ cs, c.level.rank ≤ (afterOffers cs).best.rank) ∧
    ((afterOffers cs).winner = none ↔ ∀ c ∈ cs, c.level = .noMatch) ∧
    ((afterOffers cs).best = .noMatch ∧ (afterOffers cs).winner = none ∨
      ∃ before w after, cs = before ++ w :: after ∧ Wins before w after ∧
        (afterOffers cs).best = w.level ∧ (afterOffers cs).winner = some w.place) ∧
    ∀ c, ((afterOffers cs).offer c.place c.score c.isVariadic c.suitsWindow).2 = true ↔
      c.level = .exact ∧ c.suitsWindow = true ∧ Wins cs c [] := by
  have htracks := tracks_afterOffers cs
  have hchoice := choice_of_offers cs
  refine ⟨htracks.bound, ?_, hchoice, fun c => ?_⟩
  · obtain ⟨hbest, hnone⟩ | ⟨before, w, after, rfl, hwins, -, hwinner⟩ := hchoice
    · refine iff_of_true hnone fun c hc => ?_
      have hle := htracks.bound c hc
      rw [hbest] at hle
      exact MatchLevel.rank_eq_zero.mp (Nat.le_zero.mp hle)
    · rw [hwinner]
      exact iff_of_false nofun fun hall => hwins.ne_noMatch (hall w (by simp))
  · rw [isOver_offer]
    refine and_congr_right fun hc => and_congr_right fun _ => ?_
    rw [Candidate.wins_exact_iff hc, ← winnerIsVariadic_iff]
    simp only [List.not_mem_nil, false_imp_iff, implies_true, and_true]
    exact forall_comm

end CandidateTracker
end SqlResolution
