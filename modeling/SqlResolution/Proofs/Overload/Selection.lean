import SqlResolution.Proofs.Overload.Choice
import SqlResolution.Proofs.Overload.Evolution
import SqlResolution.Proofs.Overload.Run

/-!
# The overload of a call

A call goes to the first overload that matches it exactly and, where none does, to the one that
leads at the highest level. It fails when no overload is in the running.
-/
namespace SqlResolution

namespace Candidate

/-- The candidate that a call goes to. -/
inductive IsChoice (cs : List Candidate) (w : Candidate) : Prop where
  | exact (level : w.level = .exact)
      (first : ∃ before after, cs = before ++ w :: after ∧ ∀ c ∈ before, c.level ≠ .exact)
  | leader (inexact : ∀ c ∈ cs, c.level ≠ .exact)
      (top : ∀ c ∈ cs, c.level.rank ≤ w.level.rank) (leads : Leads w.level cs w)

namespace IsChoice

variable {cs : List Candidate} {w : Candidate}

theorem mem (h : IsChoice cs w) : w ∈ cs := by
  cases h with
  | exact _ first =>
    obtain ⟨before, after, rfl, -⟩ := first
    simp
  | leader _ _ leads => exact leads.mem

theorem unique {w' : Candidate} (h : IsChoice cs w) (h' : IsChoice cs w') : w = w' := by
  have hmem := h.mem
  have hmem' := h'.mem
  cases h with
  | exact level first =>
    cases h' with
    | leader inexact _ _ => exact absurd level (inexact w hmem)
    | exact level' first' =>
      obtain ⟨before, after, rfl, hb⟩ := first
      obtain ⟨before', after', he, hb'⟩ := first'
      obtain ⟨mid, rfl, hm⟩ | ⟨mid, rfl, hm⟩ := List.append_eq_append_iff.mp he
      · cases mid with
        | nil => simp_all
        | cons d mid =>
          obtain ⟨rfl, -⟩ := List.cons.inj hm
          exact absurd level (hb' w (by simp))
      · cases mid with
        | nil => simp_all
        | cons d mid =>
          obtain ⟨rfl, -⟩ := List.cons.inj hm
          exact absurd level' (hb w' (by simp))
  | leader inexact top leads =>
    cases h' with
    | exact level' _ => exact absurd level' (inexact w' hmem')
    | leader _ top' leads' =>
      have hl : w.level = w'.level := by
        rw [← MatchLevel.rank_inj]
        exact Nat.le_antisymm (top' w hmem) (top w' hmem')
      rw [← hl] at leads'
      exact leads.unique leads'

end IsChoice

/-- The candidates up to the first exact one. -/
def upToExact : List Candidate → List Candidate
  | [] => []
  | c :: cs => if c.level = .exact then [c] else c :: upToExact cs

theorem upToExact_of_inexact {cs : List Candidate} (h : ∀ c ∈ cs, c.level ≠ .exact) :
    upToExact cs = cs := by
  induction cs with
  | nil => rfl
  | cons c cs ih =>
    rw [upToExact, if_neg (h c (by simp)), ih fun d hd => h d (by simp [hd])]

theorem upToExact_append {before after : List Candidate} {w : Candidate} (hw : w.level = .exact)
    (h : ∀ c ∈ before, c.level ≠ .exact) :
    upToExact (before ++ w :: after) = before ++ [w] := by
  induction before with
  | nil => simp [upToExact, hw]
  | cons c cs ih =>
    rw [List.cons_append, upToExact, if_neg (h c (by simp)), ih fun d hd => h d (by simp [hd])]
    rfl

theorem exists_first_exact {cs : List Candidate} (h : ∃ c ∈ cs, c.level = .exact) :
    ∃ before w after, cs = before ++ w :: after ∧ w.level = .exact ∧
      ∀ c ∈ before, c.level ≠ .exact := by
  obtain ⟨c, hc, hlevel⟩ := h
  induction cs with
  | nil => simp at hc
  | cons d ds ih =>
    by_cases hd : d.level = .exact
    · exact ⟨[], d, ds, rfl, hd, by simp⟩
    · obtain rfl | hc := List.mem_cons.mp hc
      · exact absurd hlevel hd
      · obtain ⟨before, w, after, rfl, hw, hb⟩ := ih hc
        refine ⟨d :: before, w, after, rfl, hw, ?_⟩
        intro e he
        obtain rfl | he := List.mem_cons.mp he
        · exact hd
        · exact hb e he

end Candidate

namespace CandidateTracker

theorem best_consider_ne {t : CandidateTracker} {c : Candidate} (ht : t.best ≠ .exact)
    (hc : c.level ≠ .exact) : (t.consider c).best ≠ .exact := by
  obtain ⟨he, -⟩ | ⟨-, hexact, -⟩ | ⟨he, -⟩ := t.consider_cases c
  · rwa [he]
  · exact absurd hexact hc
  · rwa [he]

theorem best_foldl_ne {t : CandidateTracker} {cs : List Candidate} (ht : t.best ≠ .exact)
    (hcs : ∀ c ∈ cs, c.level ≠ .exact) : (cs.foldl consider t).best ≠ .exact := by
  induction cs generalizing t with
  | nil => exact ht
  | cons c cs ih =>
    exact ih (best_consider_ne ht (hcs c (by simp))) fun d hd => hcs d (by simp [hd])

theorem consider_exact {t : CandidateTracker} {c : Candidate} (ht : t.best ≠ .exact)
    (hc : c.level = .exact) : (t.consider c).winner = some c.place := by
  obtain ⟨he, hskip⟩ | ⟨he, -⟩ | ⟨-, -, hne, -⟩ := t.consider_cases c
  · obtain hl | hl | ⟨hl, -⟩ := hskip
    · simp [hc] at hl
    · have := t.best.rank_le
      rw [MatchLevel.lt_iff, hc] at hl
      omega
    · exact absurd (hl.symm.trans hc) ht
  · rw [he]
  · exact absurd hc hne

/-- A search that has found nothing exact is over with an exact candidate that suits the window
context. -/
theorem offer_isOver {t : CandidateTracker} (ht : t.best ≠ .exact) (c : Candidate) :
    (t.offer c.place c.score c.isVariadic c.suitsWindow).2 =
      (c.level == .exact && c.suitsWindow) := by
  have hlevel : c.score.level = c.level := rfl
  simp only [offer, hlevel]
  by_cases hc : c.level = .exact
  · have hlt : ¬MatchLevel.exact < t.best := by
      have := t.best.rank_le
      rw [MatchLevel.lt_iff]
      omega
    simp [hc, hlt, Ne.symm ht]
  · simp only [hc, beq_iff_eq, if_false]
    split_ifs <;> simp [hc]

/-- A tracker that considers candidates up to the first exact one chooses as a call does. -/
theorem winner_spec (cs : List Candidate) (hcs : ∀ c ∈ cs, c.level ≠ .noMatch) :
    cs = [] ∧ ((Candidate.upToExact cs).foldl consider start).winner = none ∨
      ∃ w, Candidate.IsChoice cs w ∧
        ((Candidate.upToExact cs).foldl consider start).winner = some w.place := by
  have hstart : start.best ≠ .exact := by decide
  by_cases hexact : ∃ c ∈ cs, c.level = .exact
  · obtain ⟨before, w, after, rfl, hw, hb⟩ := Candidate.exists_first_exact hexact
    refine .inr ⟨w, .exact hw ⟨before, after, rfl, hb⟩, ?_⟩
    rw [Candidate.upToExact_append hw hb, List.foldl_append]
    exact consider_exact (best_foldl_ne hstart hb) hw
  · have hb : ∀ c ∈ cs, c.level ≠ .exact := fun c hc h => hexact ⟨c, hc, h⟩
    rw [Candidate.upToExact_of_inexact hb]
    have htracks := tracks_start.foldl cs
    rw [List.nil_append] at htracks
    by_cases hno : (cs.foldl consider start).best = .noMatch
    · refine .inl ⟨List.eq_nil_iff_forall_not_mem.mpr fun c hc => hcs c hc ?_, ?_⟩
      · have := htracks.bound c hc
        rw [hno] at this
        exact MatchLevel.rank_eq_zero.mp (Nat.le_zero.mp this)
      · rw [htracks.start hno]
        rfl
    · obtain ⟨w, hw, ht⟩ := htracks.leader hno (best_foldl_ne hstart hb)
      refine .inr ⟨w, .leader hb ?_ ?_, by rw [ht]⟩
      · rw [hw.level_eq]
        exact htracks.bound
      · rwa [hw.level_eq]

end CandidateTracker

/-- The overloads in the running for a call: those that accept its number of arguments and match
them, in order. Each is scored on the arguments as the scores before it left them. -/
def candidates (binds : BindTable) (isCast inWindow : Bool) :
    Nat → List Overload → Args → List Candidate
  | _, [], _ => []
  | i, o :: os, args =>
    if o.signature.acceptsArity args.size then
      let (s, args) := o.score binds isCast inWindow args
      let rest := candidates binds isCast inWindow (i + 1) os args
      if s.level = .noMatch then rest
      else ⟨i, s, o.signature.isVariadic, o.isWindow == inWindow⟩ :: rest
    else candidates binds isCast inWindow (i + 1) os args

namespace Overload

variable (o : Overload) (binds : BindTable) (isCast inWindow : Bool)

/-- What an overload scores before the window context is looked at, where it matches. -/
def rawScore? (args : Args) : Option CandidateScore :=
  (matchAll o.factory.charFitsString isCast binds 0 o.signature.parameters args.evaluators
    ⟨if o.signature.fixedCount == 0 then .exact else .noMatch, 0⟩).1

theorem fst_score (args : Args) :
    (o.score binds isCast inWindow args).1 =
      ((o.rawScore? binds isCast args).map (adjustForWindow o.isWindow inWindow)).getD .noMatch :=
  rfl

/-- A window function scores exact only inside a window clause, and another only outside. -/
theorem isWindow_of_exact (args : Args)
    (h : (o.score binds isCast inWindow args).1.level = .exact) : o.isWindow = inWindow := by
  rw [fst_score] at h
  cases hraw : o.rawScore? binds isCast args with
  | none =>
    rw [hraw] at h
    cases h
  | some s =>
    rw [hraw] at h
    simp only [Option.map_some, Option.getD_some, adjustForWindow] at h
    by_contra hne
    simp [Ne.symm hne] at h

end Overload

section Candidates

variable {binds : BindTable} {isCast inWindow : Bool} {i : Nat} {os : List Overload} {args : Args}

/-- A candidate is one of the overloads, scored on what the scores before it left of the
arguments. -/
theorem exists_scored_of_mem_candidates {c : Candidate}
    (h : c ∈ candidates binds isCast inWindow i os args) :
    ∃ k o args', os[k]? = some o ∧ c.place = i + k ∧ o.signature.acceptsArity args.size = true ∧
      args.Each Evaluator.Reevaluated args' ∧ c.score = (o.score binds isCast inWindow args').1 ∧
        c.level ≠ .noMatch ∧ c.isVariadic = o.signature.isVariadic := by
  induction os generalizing i args with
  | nil => simp [candidates] at h
  | cons o os ih =>
    have hlater : ∀ scored, args.Each Evaluator.Reevaluated scored →
        c ∈ candidates binds isCast inWindow (i + 1) os scored →
        ∃ k o' args', (o :: os)[k]? = some o' ∧ c.place = i + k ∧
          o'.signature.acceptsArity args.size = true ∧ args.Each Evaluator.Reevaluated args' ∧
            c.score = (o'.score binds isCast inWindow args').1 ∧ c.level ≠ .noMatch ∧
              c.isVariadic = o'.signature.isVariadic := by
      intro scored hscored hc
      obtain ⟨k, o', args', hk, hplace, harity, hargs', hscore⟩ := ih hc
      rw [hscored.size_eq] at harity
      exact ⟨k + 1, o', args', hk, by omega, harity, hscored.trans (fun _ _ _ => .trans) hargs',
        hscore⟩
    rw [candidates] at h
    by_cases ha : o.signature.acceptsArity args.size = true
    · have hscored := o.reevaluated_score binds isCast inWindow args
      simp only [ha, if_true] at h
      split at h
      · exact hlater _ hscored h
      · rename_i hno
        obtain rfl | h := List.mem_cons.mp h
        · exact ⟨0, o, args, rfl, rfl, ha, .refl (fun _ => .refl) args, rfl, hno, rfl⟩
        · exact hlater _ hscored h
    · rw [if_neg ha] at h
      exact hlater _ (.refl (fun _ => .refl) args) h

/-- A candidate is one of the overloads, and matches what the scores before it left of the
arguments. -/
theorem exists_overload_of_mem_candidates {c : Candidate}
    (h : c ∈ candidates binds isCast inWindow i os args) :
    ∃ k o args', os[k]? = some o ∧ c.place = i + k ∧ args.Evolve args' ∧
      c.score = (o.score binds isCast inWindow args').1 ∧ c.level ≠ .noMatch := by
  obtain ⟨k, o, args', hk, hplace, -, hargs', hscore, hno, -⟩ := exists_scored_of_mem_candidates h
  exact ⟨k, o, args', hk, hplace, hargs'.mono fun _ _ h => h.evolves, hscore, hno⟩

/-- Candidates stand in the order of their overloads. -/
theorem pairwise_place_candidates :
    (candidates binds isCast inWindow i os args).Pairwise (·.place < ·.place) := by
  induction os generalizing i args with
  | nil => exact .nil
  | cons o os ih =>
    rw [candidates]
    split
    · dsimp only
      split
      · exact ih
      · refine .cons (fun c hc => ?_) ih
        obtain ⟨k, _, _, -, hplace, -⟩ := exists_scored_of_mem_candidates hc
        change i < c.place
        omega
    · exact ih

/-- An overload is in the running where it matches what the scores before it left of the
arguments. -/
theorem exists_candidate {k : Nat} {o : Overload} (hk : os[k]? = some o)
    (harity : o.signature.acceptsArity args.size = true)
    (hmatch : ∀ args', args.Each Evaluator.Reevaluated args' →
      (o.score binds isCast inWindow args').1.level ≠ .noMatch) :
    ∃ c ∈ candidates binds isCast inWindow i os args, ∃ args',
      c.place = i + k ∧ args.Each Evaluator.Reevaluated args' ∧
        c.score = (o.score binds isCast inWindow args').1 ∧
          c.isVariadic = o.signature.isVariadic := by
  induction os generalizing i k args with
  | nil => cases hk
  | cons first os ih =>
    cases k with
    | zero =>
      cases hk
      have hself : args.Each Evaluator.Reevaluated args := .refl (fun _ => .refl) args
      simp only [candidates, if_pos harity, if_neg (hmatch args hself)]
      exact ⟨_, List.mem_cons_self, args, rfl, hself, rfl, rfl⟩
    | succ k =>
      have hlater : ∀ scored, args.Each Evaluator.Reevaluated scored →
          ∃ c ∈ candidates binds isCast inWindow (i + 1) os scored, ∃ args',
            c.place = i + (k + 1) ∧ args.Each Evaluator.Reevaluated args' ∧
              c.score = (o.score binds isCast inWindow args').1 ∧
                c.isVariadic = o.signature.isVariadic := by
        intro scored hscored
        obtain ⟨c, hc, args', hplace, hargs', hscore⟩ := ih (i := i + 1) hk
          (by rwa [hscored.size_eq])
          fun args' hargs' => hmatch args' (hscored.trans (fun _ _ _ => .trans) hargs')
        exact ⟨c, hc, args', by omega, hscored.trans (fun _ _ _ => .trans) hargs', hscore⟩
      rw [candidates]
      split
      · obtain ⟨c, hc, hspec⟩ := hlater _ (first.reevaluated_score binds isCast inWindow args)
        dsimp only
        split
        · exact ⟨c, hc, hspec⟩
        · exact ⟨c, List.mem_cons_of_mem _ hc, hspec⟩
      · exact hlater args (.refl (fun _ => .refl) args)

/-- The scan of the overloads considers the candidates up to the first exact one. -/
theorem scan_fst {t : CandidateTracker} (ht : t.best ≠ .exact) :
    (scan binds isCast inWindow i os t args).1 =
      (Candidate.upToExact (candidates binds isCast inWindow i os args)).foldl
        CandidateTracker.consider t := by
  induction os generalizing i args t with
  | nil => rfl
  | cons o os ih =>
    rw [scan, candidates]
    by_cases ha : o.signature.acceptsArity args.size = true
    · simp only [ha, if_true]
      have hwindow := o.isWindow_of_exact binds isCast inWindow args
      generalize o.score binds isCast inWindow args = scored at hwindow ⊢
      obtain ⟨s, args⟩ := scored
      by_cases hno : s.level = .noMatch
      · rw [if_pos hno]
        simp only [CandidateTracker.offer, hno, beq_self_eq_true, Bool.true_or, if_true]
        exact ih ht
      · rw [if_neg hno]
        have hover := CandidateTracker.offer_isOver ht
          ⟨i, s, o.signature.isVariadic, o.isWindow == inWindow⟩
        simp only [Candidate.level] at hover
        by_cases hexact : s.level = .exact
        · have hstop : (t.offer i s o.signature.isVariadic (o.isWindow == inWindow)).2 = true := by
            rw [hover, hexact, hwindow hexact]
            simp
          simp only [Candidate.upToExact, Candidate.level, hexact, hstop, if_true]
          rfl
        · simp only [Candidate.upToExact, Candidate.level, hover, hexact,
            beq_eq_false_iff_ne.mpr hexact, Bool.false_and, Bool.false_eq_true, if_false]
          exact ih (CandidateTracker.best_consider_ne
            (c := ⟨i, s, o.signature.isVariadic, o.isWindow == inWindow⟩) ht hexact)
    · rw [if_neg ha, if_neg ha]
      exact ih ht

/-- The scan of all overloads ends with the choice among the candidates. -/
theorem winner_scan (binds : BindTable) (isCast inWindow : Bool) (os : List Overload) (args : Args) :
    let running := candidates binds isCast inWindow 0 os args
    let winner := (scan binds isCast inWindow 0 os .start args).1.winner
    (running = [] ∧ winner = none) ∨
      ∃ w, Candidate.IsChoice running w ∧ winner = some w.place := by
  intro running winner
  have hmatch : ∀ w ∈ running, w.level ≠ .noMatch := by
    intro w hw
    obtain ⟨_, _, _, _, _, _, _, hno⟩ := exists_overload_of_mem_candidates hw
    exact hno
  have hstart : CandidateTracker.start.best ≠ .exact := by decide
  simp only [winner, @scan_fst binds isCast inWindow 0 os args .start hstart]
  exact CandidateTracker.winner_spec running hmatch

theorem exists_choice_of_winner {place : Nat}
    (h : (scan binds isCast inWindow 0 os .start args).1.winner = some place) :
    ∃ c, Candidate.IsChoice (candidates binds isCast inWindow 0 os args) c ∧ c.place = place := by
  obtain ⟨-, hnone⟩ | ⟨c, hc, hplace⟩ := winner_scan binds isCast inWindow os args
  · rw [h] at hnone
    cases hnone
  · exact ⟨c, hc, Option.some.inj (hplace.symm.trans h)⟩

/-- The scan of all overloads ends with the one that the choice among the candidates stands for. -/
theorem scan_chooses (binds : BindTable) (isCast inWindow : Bool) (os : List Overload)
    (args : Args) :
    let running := candidates binds isCast inWindow 0 os args
    let winner := (scan binds isCast inWindow 0 os .start args).1.winner.bind (os[·]?)
    (running = [] ∧ winner = none) ∨
    ∃ w o args', Candidate.IsChoice running w ∧ os[w.place]? = some o ∧ winner = some o ∧
      args.Evolve args' ∧ (o.score binds isCast inWindow args').1.level ≠ .noMatch := by
  intro running winner
  obtain ⟨hnone, hwinner⟩ | ⟨w, hw, hwinner⟩ := winner_scan binds isCast inWindow os args
  · left
    refine ⟨hnone, ?_⟩
    simp only [winner]
    rw [hwinner, Option.bind_none]
  · right
    obtain ⟨k, o, args', hk, hplace, hevolve, hscore, hno⟩ :=
      exists_overload_of_mem_candidates hw.mem
    have ho : os[w.place]? = some o := by
      rw [hplace, Nat.zero_add]
      exact hk
    refine ⟨w, o, args', hw, ho, ?_, hevolve, ?_⟩
    · simp only [winner]
      rw [hwinner, Option.bind_some, ho]
    · rw [← hscore]
      exact hno

end Candidates

/-- A call with arguments that is no cast of an operand to its own type fails where no overload is
in the running, and goes to the choice among those in the running otherwise. -/
theorem Catalog.resolve_chooses {c : Catalog} {settings : Settings} {name : String} {span : Span}
    {overloads : List Overload} {args prepared : Args} {context context' : Context}
    (hname : c.overloads? name = some overloads) (hargs : args.isEmpty = false)
    (hcast : elision name args context = (.ok (false, prepared), context')) :
    let isCast := isCastCall name args
    let running := candidates context'.table isCast context'.inWindow 0 overloads prepared
    let scored := (scan context'.table isCast context'.inWindow 0 overloads .start prepared).2
    (running = [] ∧ c.resolve settings name span args context =
      (.error (noMatchingOverload c overloads name span scored), context')) ∨
    ∃ w o, Candidate.IsChoice running w ∧ (∀ w', Candidate.IsChoice running w' → w' = w) ∧
      overloads[w.place]? = some o ∧ c.resolve settings name span args context =
        o.take settings name span (undefinedPlaces prepared) scored context' := by
  intro isCast running scored
  have hresolve : c.resolve settings name span args context = _ :=
    (resolve_of_elision hname hargs hcast).trans (resolveRanked_apply isCast prepared context')
  rw [hresolve]
  obtain ⟨hnone, hwinner⟩ | ⟨w, o, _, hw, ho, hwinner, -⟩ :=
    scan_chooses context'.table isCast context'.inWindow overloads prepared
  · left
    refine ⟨hnone, ?_⟩
    simp only [hwinner]
    rfl
  · right
    refine ⟨w, o, hw, fun w' hw' => hw'.unique hw, ho, ?_⟩
    simp only [hwinner]
    rfl

/-- `f(double, var)` and then `f(long)`. -/
def wideningOverloads : List Overload :=
  [⟨⟨"f", [⟨.double, false⟩], some ⟨false⟩⟩, default⟩, ⟨⟨"f", [⟨.long, false⟩], none⟩, default⟩]

/-- A SHORT goes to `f(long)`: of the two it costs less, and it is fixed. -/
theorem Catalog.resolve_chooses_long :
    let c : Catalog := ⟨[("f", wideningOverloads)], []⟩
    let args : Args := ⟨[.column 0 .short "s"], [⟨2, 1⟩]⟩
    c.overloads? "f" = some wideningOverloads ∧ args.isEmpty = false ∧
      elision "f" args (.fresh 0) = (.ok (false, args), .fresh 0) ∧
      ∃ o, wideningOverloads[1]? = some o ∧ c.resolve .default "f" .none args (.fresh 0) =
        o.take .default "f" .none (undefinedPlaces args) args (.fresh 0) := by
  intro c args
  let double : Candidate := ⟨0, ⟨.fuzzy, 4⟩, true, true⟩
  let long : Candidate := ⟨1, ⟨.fuzzy, 2⟩, false, true⟩
  refine ⟨rfl, rfl, rfl, ?_⟩
  have hchoice : Candidate.IsChoice [double, long] long := by
    refine .leader (by decide) (by decide) (.fixed ⟨[double], long, [], rfl, ⟨rfl, rfl⟩, ?_⟩
      ⟨⟨rfl, rfl⟩, [double], [], rfl, ?_, by simp⟩)
    all_goals
      intro d hd _
      rw [List.mem_singleton.mp hd]
      decide
  obtain ⟨hnone, -⟩ | ⟨w, o, hw, hunique, ho, hresolve⟩ :=
    @Catalog.resolve_chooses c .default "f" .none wideningOverloads args args (.fresh 0)
      (.fresh 0) rfl rfl rfl
  · cases hnone
  · obtain rfl := hunique long hchoice
    exact ⟨o, ho, hresolve⟩

end SqlResolution
