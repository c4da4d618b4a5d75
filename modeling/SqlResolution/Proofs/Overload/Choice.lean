import Mathlib.Data.List.Induction
import Mathlib.Tactic.SplitIfs
import SqlResolution.Overload.Ranking

/-!
# The best candidate

A tracker considers candidates one after another. Of the candidates below exact that it has seen it
leads with one of the highest level: the earliest fixed one of least score, where a fixed one scores
below every variadic one before it, and the earliest variadic one of least score otherwise.
-/
namespace SqlResolution

namespace MatchLevel

theorem lt_iff (a b : MatchLevel) : a < b ↔ a.rank < b.rank := Iff.rfl

theorem rank_inj {a b : MatchLevel} : a.rank = b.rank ↔ a = b := by
  cases a <;> cases b <;> decide

theorem rank_le (a : MatchLevel) : a.rank ≤ exact.rank := by
  cases a <;> decide

theorem rank_eq_zero {a : MatchLevel} : a.rank = 0 ↔ a = noMatch := by
  cases a <;> decide

end MatchLevel

/-- An overload in the running: its place among those of its name, its score, whether it is
variadic, and whether it suits the window context. -/
structure Candidate where
  place : Nat
  score : CandidateScore
  isVariadic : Bool
  suitsWindow : Bool

namespace Candidate

def level (c : Candidate) : MatchLevel := c.score.level

def points (c : Candidate) : Int := c.score.score

/-- A candidate of a level that has fixed arity, or that is variadic. -/
def IsOf (level : MatchLevel) (isVariadic : Bool) (c : Candidate) : Prop :=
  c.level = level ∧ c.isVariadic = isVariadic

/-- The earliest of the candidates with a property that have the least score. -/
def FirstLeast (p : Candidate → Prop) (cs : List Candidate) (w : Candidate) : Prop :=
  p w ∧ ∃ before after, cs = before ++ w :: after ∧
    (∀ c ∈ before, p c → w.points < c.points) ∧ ∀ c ∈ after, p c → w.points ≤ c.points

namespace FirstLeast

variable {p : Candidate → Prop} {cs : List Candidate} {w c : Candidate}

theorem mem (h : FirstLeast p cs w) : w ∈ cs := by
  obtain ⟨_, before, after, rfl, _, _⟩ := h
  simp

theorem least (h : FirstLeast p cs w) (hc : c ∈ cs) (hp : p c) : w.points ≤ c.points := by
  obtain ⟨_, before, after, rfl, hb, ha⟩ := h
  simp only [List.mem_append, List.mem_cons] at hc
  obtain hc | rfl | hc := hc
  · have := hb c hc hp
    omega
  · omega
  · exact ha c hc hp

/-- A later candidate that scores no lower changes nothing. -/
theorem snoc (h : FirstLeast p cs w) (hc : p c → w.points ≤ c.points) :
    FirstLeast p (cs ++ [c]) w := by
  obtain ⟨hw, before, after, rfl, hb, ha⟩ := h
  refine ⟨hw, before, after ++ [c], by simp, hb, ?_⟩
  intro d hd hp
  rcases List.mem_append.mp hd with hd | hd
  · exact ha d hd hp
  · rw [List.mem_singleton.mp hd] at hp ⊢
    exact hc hp

/-- A last candidate that scores below all the others is the earliest of least score. -/
theorem of_last (hp : p c) (hlt : ∀ d ∈ cs, p d → c.points < d.points) :
    FirstLeast p (cs ++ [c]) c :=
  ⟨hp, cs, [], rfl, hlt, by simp⟩

theorem unique {w' : Candidate} (h : FirstLeast p cs w) (h' : FirstLeast p cs w') : w = w' := by
  have hle := h.least h'.mem h'.1
  have hle' := h'.least h.mem h.1
  obtain ⟨hw, before, after, rfl, hb, ha⟩ := h
  obtain ⟨hw', before', after', he, hb', ha'⟩ := h'
  rcases List.append_eq_append_iff.mp he with ⟨mid, rfl, hm⟩ | ⟨mid, rfl, hm⟩
  · cases mid with
    | nil => simp_all
    | cons d mid =>
      obtain ⟨rfl, _⟩ := List.cons.inj hm
      have := hb' w (by simp) hw
      omega
  · cases mid with
    | nil => simp_all
    | cons d mid =>
      obtain ⟨rfl, _⟩ := List.cons.inj hm
      have := hb w' (by simp) hw'
      omega

end FirstLeast

/-- Some fixed candidate of a level scores below every variadic one of the level before it. -/
def FixedLeads (level : MatchLevel) (cs : List Candidate) : Prop :=
  ∃ before w after, cs = before ++ w :: after ∧ w.IsOf level false ∧
    ∀ c ∈ before, c.IsOf level true → w.points < c.points

namespace FixedLeads

variable {level : MatchLevel} {cs : List Candidate} {c : Candidate}

theorem snoc (h : FixedLeads level cs) : FixedLeads level (cs ++ [c]) := by
  obtain ⟨before, w, after, rfl, hw, hb⟩ := h
  exact ⟨before, w, after ++ [c], by simp, hw, hb⟩

theorem of_last (hc : c.IsOf level false)
    (hlt : ∀ d ∈ cs, d.IsOf level true → c.points < d.points) : FixedLeads level (cs ++ [c]) :=
  ⟨cs, c, [], rfl, hc, hlt⟩

/-- Where a last candidate makes a fixed one lead, it is that one. -/
theorem of_snoc (h : FixedLeads level (cs ++ [c])) :
    FixedLeads level cs ∨
      c.IsOf level false ∧ ∀ d ∈ cs, d.IsOf level true → c.points < d.points := by
  obtain ⟨before, w, after, he, hw, hb⟩ := h
  cases after using List.reverseRecOn with
  | nil =>
    obtain ⟨rfl, hc⟩ := List.append_inj' he rfl
    obtain rfl := List.singleton_inj.mp hc
    exact .inr ⟨hw, hb⟩
  | append_singleton after d =>
    rw [← List.cons_append, ← List.append_assoc] at he
    obtain ⟨rfl, -⟩ := List.append_inj' he rfl
    exact .inl ⟨before, w, after, rfl, hw, hb⟩

/-- Where no fixed candidate leads, each has a variadic one before it that scores no higher. -/
theorem exists_variadic (h : ¬FixedLeads level cs) (hc : c ∈ cs) (hf : c.IsOf level false) :
    ∃ v ∈ cs, v.IsOf level true ∧ v.points ≤ c.points := by
  obtain ⟨before, after, rfl⟩ := List.append_of_mem hc
  by_contra hn
  refine h ⟨before, c, after, rfl, hf, fun d hd hv => ?_⟩
  by_contra hlt
  exact hn ⟨d, by simp [hd], hv, by omega⟩

end FixedLeads

/-- The candidate that leads among those of a level. -/
inductive Leads (level : MatchLevel) (cs : List Candidate) (w : Candidate) : Prop where
  | fixed (leads : FixedLeads level cs) (first : FirstLeast (IsOf level false) cs w)
  | variadic (leads : ¬FixedLeads level cs) (first : FirstLeast (IsOf level true) cs w)

namespace Leads

variable {level : MatchLevel} {cs : List Candidate} {w c : Candidate}

theorem mem (h : Leads level cs w) : w ∈ cs := by
  cases h with
  | fixed _ first => exact first.mem
  | variadic _ first => exact first.mem

theorem level_eq (h : Leads level cs w) : w.level = level := by
  cases h with
  | fixed _ first => exact first.1.1
  | variadic _ first => exact first.1.1

theorem unique {w' : Candidate} (h : Leads level cs w) (h' : Leads level cs w') : w = w' := by
  cases h with
  | fixed leads first =>
    cases h' with
    | fixed _ first' => exact first.unique first'
    | variadic leads' _ => exact absurd leads leads'
  | variadic leads first =>
    cases h' with
    | fixed leads' _ => exact absurd leads' leads
    | variadic _ first' => exact first.unique first'

/-- No candidate of the level scores below the one that leads, unless it is variadic and the leader
is not. -/
theorem least (h : Leads level cs w) (hc : c ∈ cs) (hl : c.level = level)
    (hv : c.isVariadic = true → w.isVariadic = true) : w.points ≤ c.points := by
  cases h with
  | fixed _ first =>
    have hf : c.isVariadic = false := by
      have := first.1.2
      cases he : c.isVariadic <;> simp_all
    exact first.least hc ⟨hl, hf⟩
  | variadic leads first =>
    cases he : c.isVariadic with
    | true => exact first.least hc ⟨hl, he⟩
    | false =>
      obtain ⟨v, hv, hof, hle⟩ := FixedLeads.exists_variadic leads hc ⟨hl, he⟩
      have := first.least hv hof
      omega

/-- A candidate leads among those up to itself when none before it is of its level. -/
theorem of_new_level (hc : c.level = level) (hcs : ∀ d ∈ cs, d.level ≠ level) :
    Leads level (cs ++ [c]) c := by
  have hno : ∀ b, ∀ d ∈ cs, d.IsOf level b → c.points < d.points :=
    fun b d hd h => absurd h.1 (hcs d hd)
  cases hv : c.isVariadic with
  | false => exact .fixed (.of_last ⟨hc, hv⟩ (hno true)) (.of_last ⟨hc, hv⟩ (hno false))
  | true =>
    refine .variadic (fun h => ?_) (.of_last ⟨hc, hv⟩ (hno true))
    obtain ⟨before, d, after, rfl, hd, -⟩ | ⟨hf, -⟩ := h.of_snoc
    · exact hcs d (by simp) hd.1
    · simp [hf.2] at hv

/-- A candidate takes the lead from one that scores higher, unless it is variadic and the other is
not. -/
theorem overtake (h : Leads level cs w) (hc : c.level = level)
    (hv : c.isVariadic = true → w.isVariadic = true) (hlt : c.points < w.points) :
    Leads level (cs ++ [c]) c := by
  have hbelow : ∀ d ∈ cs, d.level = level →
      (d.isVariadic = true → w.isVariadic = true) → c.points < d.points := by
    intro d hd hl hdv
    have := h.least hd hl hdv
    omega
  cases hcv : c.isVariadic with
  | true =>
    cases h with
    | fixed _ first =>
      have := first.1.2
      simp [hv hcv] at this
    | variadic leads first =>
      refine .variadic (fun hl => ?_) (.of_last ⟨hc, hcv⟩ ?_)
      · obtain hl | ⟨hf, -⟩ := hl.of_snoc
        · exact leads hl
        · simp [hf.2] at hcv
      · exact fun d hd hof => hbelow d hd hof.1 fun _ => first.1.2
  | false =>
    have hfirst : FirstLeast (IsOf level false) (cs ++ [c]) c :=
      .of_last ⟨hc, hcv⟩ fun d hd hof => hbelow d hd hof.1 (by simp [hof.2])
    cases h with
    | fixed leads _ => exact .fixed leads.snoc hfirst
    | variadic _ first =>
      exact .fixed (.of_last ⟨hc, hcv⟩ fun d hd hof => hbelow d hd hof.1 fun _ => first.1.2) hfirst

/-- The lead stays with a candidate when the next one is of another level, scores no lower, or is
variadic and the leader is not. -/
theorem keep (h : Leads level cs w)
    (hc : c.level = level → (c.isVariadic = true ∧ w.isVariadic = false) ∨ w.points ≤ c.points) :
    Leads level (cs ++ [c]) w := by
  cases h with
  | fixed leads first =>
    refine .fixed leads.snoc (first.snoc fun hof => ?_)
    obtain ⟨hv, -⟩ | hle := hc hof.1
    · simp [hof.2] at hv
    · exact hle
  | variadic leads first =>
    have hw := first.1.2
    refine .variadic (fun hl => ?_) (first.snoc fun hof => ?_)
    · obtain hl | ⟨hf, hlt⟩ := hl.of_snoc
      · exact leads hl
      · obtain ⟨-, hn⟩ | hle := hc hf.1
        · simp [hn] at hw
        · have := hlt w first.mem first.1
          omega
    · obtain ⟨-, hn⟩ | hle := hc hof.1
      · simp [hn] at hw
      · exact hle

end Leads
end Candidate

namespace CandidateTracker

open Candidate (Leads)

/-- The tracker after a candidate. -/
def consider (t : CandidateTracker) (c : Candidate) : CandidateTracker :=
  (t.offer c.place c.score c.isVariadic c.suitsWindow).1

/-- What a tracker knows about the candidates that it has considered: their highest level and,
below exact, the one that leads there. -/
structure Tracks (cs : List Candidate) (t : CandidateTracker) : Prop where
  bound : ∀ c ∈ cs, c.level.rank ≤ t.best.rank
  start : t.best = .noMatch → t = .start
  leader : t.best ≠ .noMatch → t.best ≠ .exact →
    ∃ w, Leads t.best cs w ∧ t = ⟨t.best, some w.place, w.isVariadic, w.points⟩

theorem tracks_start : Tracks [] start := by
  refine ⟨by simp, fun _ => rfl, fun h => absurd rfl h⟩

/-- What considering a candidate can do: nothing, or give it the lead, of which only a lead below
exact notes the score. -/
theorem consider_cases (t : CandidateTracker) (c : Candidate) :
    (t.consider c = t ∧
      (c.level = .noMatch ∨ c.level < t.best ∨
        c.level = t.best ∧ ((c.isVariadic = true ∧ t.winnerIsVariadic = false) ∨
          c.level ≠ .exact ∧ t.score ≤ c.points))) ∨
    (t.consider c =
        { t with best := .exact, winner := some c.place, winnerIsVariadic := c.isVariadic } ∧
      c.level = .exact ∧
      (t.best = .exact → c.isVariadic = true → t.winnerIsVariadic = true)) ∨
    (t.consider c = ⟨c.level, some c.place, c.isVariadic, c.points⟩ ∧
      c.level ≠ .noMatch ∧ c.level ≠ .exact ∧
      (t.best < c.level ∨
        c.level = t.best ∧ (c.isVariadic = true → t.winnerIsVariadic = true) ∧
          c.points < t.score)) := by
  have hlevel : c.score.level = c.level := rfl
  have hpoints : c.score.score = c.points := rfl
  simp only [consider, offer, hlevel, hpoints]
  split
  · rename_i h
    simp only [beq_iff_eq, Bool.or_eq_true, decide_eq_true_eq] at h
    exact .inl ⟨rfl, h.imp_right .inl⟩
  rename_i hlow
  simp only [beq_iff_eq, Bool.or_eq_true, decide_eq_true_eq, not_or] at hlow
  split
  · rename_i h
    simp only [beq_iff_eq, Bool.and_eq_true, Bool.not_eq_true'] at h
    exact .inl ⟨rfl, .inr (.inr ⟨h.1.1, .inl ⟨h.1.2, h.2⟩⟩)⟩
  rename_i hveto
  have hveto : c.level = t.best → c.isVariadic = true → t.winnerIsVariadic = true := by
    intro hl hv
    simpa [hl, hv] using hveto
  split
  · rename_i h
    simp only [beq_iff_eq] at h
    exact .inr (.inl ⟨by rw [h], h, fun hb => hveto (h.trans hb.symm)⟩)
  rename_i hexact
  simp only [beq_iff_eq] at hexact
  have hle : t.best < c.level ∨ c.level = t.best := by
    rw [MatchLevel.lt_iff, ← MatchLevel.rank_inj]
    have := hlow.2
    rw [MatchLevel.lt_iff] at this
    omega
  split
  · rename_i h
    simp only [Bool.or_eq_true, decide_eq_true_eq] at h
    refine .inr (.inr ⟨rfl, hlow.1, hexact, ?_⟩)
    obtain hlt | heq := hle
    · exact .inl hlt
    · obtain h | h := h
      · exact .inr ⟨heq, hveto heq, h⟩
      · exact .inl h
  · rename_i h
    simp only [Bool.or_eq_true, decide_eq_true_eq, not_or] at h
    have heq := hle.resolve_left h.2
    exact .inl ⟨by rw [heq], .inr (.inr ⟨heq, .inr ⟨hexact, by omega⟩⟩)⟩

namespace Tracks

variable {cs : List Candidate} {t : CandidateTracker}

theorem bound_snoc {c : Candidate} {n : Nat} (hcs : ∀ d ∈ cs, d.level.rank ≤ n)
    (hc : c.level.rank ≤ n) : ∀ d ∈ cs ++ [c], d.level.rank ≤ n := by
  intro d hd
  obtain hd | rfl := List.mem_append.mp hd |>.imp_right List.mem_singleton.mp
  · exact hcs d hd
  · exact hc

/-- What a tracker knows stays right when it considers one more candidate. -/
theorem consider (h : Tracks cs t) (c : Candidate) : Tracks (cs ++ [c]) (t.consider c) := by
  obtain ⟨he, hskip⟩ | ⟨he, hexact, -⟩ | ⟨he, hno, hne, hlead⟩ := t.consider_cases c
  · rw [he]
    refine ⟨bound_snoc h.bound ?_, h.start, fun hb hb' => ?_⟩
    · obtain hl | hl | ⟨hl, -⟩ := hskip
      · rw [MatchLevel.rank_eq_zero.mpr hl]
        omega
      · exact Nat.le_of_lt hl
      · exact Nat.le_of_eq (by rw [hl])
    · obtain ⟨w, hw, ht⟩ := h.leader hb hb'
      refine ⟨w, hw.keep fun hl => ?_, ht⟩
      obtain hl' | hl' | ⟨-, hv | hle⟩ := hskip
      · exact absurd (hl.symm.trans hl') hb
      · rw [MatchLevel.lt_iff, hl] at hl'
        omega
      · rw [ht] at hv
        exact .inl hv
      · rw [ht] at hle
        exact .inr hle.2
  · rw [he]
    exact ⟨fun d _ => d.level.rank_le, by simp, by simp⟩
  · rw [he]
    refine ⟨bound_snoc (fun d hd => Nat.le_trans (h.bound d hd) ?_) (Nat.le_refl _),
      fun hb => absurd hb hno, fun _ _ => ⟨c, ?_, rfl⟩⟩
    · obtain hlt | ⟨heq, -⟩ := hlead
      · exact Nat.le_of_lt hlt
      · exact Nat.le_of_eq (by rw [heq])
    · obtain hlt | ⟨heq, hv, hlt⟩ := hlead
      · refine .of_new_level rfl fun d hd (hl : d.level = c.level) => ?_
        have := h.bound d hd
        rw [MatchLevel.lt_iff, ← hl] at hlt
        omega
      · obtain ⟨w, hw, ht⟩ := h.leader (by rwa [← heq]) (by rwa [← heq])
        rw [ht] at hv hlt
        have := hw.overtake heq hv hlt
        rwa [← heq] at this

theorem foldl (h : Tracks cs t) (ds : List Candidate) :
    Tracks (cs ++ ds) (ds.foldl CandidateTracker.consider t) := by
  induction ds generalizing cs t with
  | nil => simpa using h
  | cons d ds ih => simpa using ih (h.consider d)

end Tracks
end CandidateTracker
end SqlResolution
