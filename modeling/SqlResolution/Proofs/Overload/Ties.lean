import SqlResolution.Proofs.Overload.WindowCalls

/-!
# Ties between fixed and variadic overloads

Of an overload of fixed arity and a variadic one that match a call alike, the variadic one is not
chosen where it is registered second. Where it is registered first the tie goes to it, unless an
overload of fixed arity leads already when its turn comes.
-/
namespace SqlResolution

namespace Candidate

variable {cs : List Candidate} {c f v w : Candidate} {level : MatchLevel} {p : Candidate → Prop}

/-- In order, a candidate of a list that is cut at another is before the cut or no earlier. -/
theorem place_le_of_notMem {before after : List Candidate}
    (hsorted : (before ++ w :: after).Pairwise (·.place < ·.place)) (hc : c ∈ before ++ w :: after)
    (hbefore : c ∉ before) : w.place ≤ c.place := by
  obtain hc | hc := List.mem_append.mp hc
  · exact absurd hc hbefore
  · obtain rfl | hc := List.mem_cons.mp hc
    · exact Nat.le_refl _
    · exact Nat.le_of_lt ((List.pairwise_cons.mp (List.pairwise_append.mp hsorted).2.1).1 c hc)

/-- The earliest of the least comes no later than another that scores no higher. -/
theorem FirstLeast.place_le (h : FirstLeast p cs w) (hsorted : cs.Pairwise (·.place < ·.place))
    (hc : c ∈ cs) (hp : p c) (hle : c.points ≤ w.points) : w.place ≤ c.place := by
  obtain ⟨-, before, after, rfl, hbefore, -⟩ := h
  refine place_le_of_notMem hsorted hc fun hmem => ?_
  have hlt := hbefore c hmem hp
  omega

/-- Among candidates in order, a fixed one leads where it scores below every variadic one of an
earlier place. -/
theorem fixedLeads_iff (hsorted : cs.Pairwise (·.place < ·.place)) :
    FixedLeads level cs ↔ ∃ w ∈ cs, w.IsOf level false ∧
      ∀ u ∈ cs, u.IsOf level true → u.place < w.place → w.points < u.points := by
  constructor
  · rintro ⟨before, w, after, rfl, hw, hbelow⟩
    refine ⟨w, by simp, hw, fun u hu hvariadic hplace => hbelow u ?_ hvariadic⟩
    by_contra hnot
    have hafter := place_le_of_notMem hsorted hu hnot
    omega
  · rintro ⟨w, hmem, hw, hbelow⟩
    obtain ⟨before, after, rfl⟩ := List.append_of_mem hmem
    refine ⟨before, w, after, rfl, hw, fun u hu hvariadic => ?_⟩
    have hplace := (List.pairwise_append.mp hsorted).2.2 u hu w List.mem_cons_self
    exact hbelow u (List.mem_append_left _ hu) hvariadic hplace

/-- A fixed candidate of the level comes before a candidate, and scores below every variadic one of
the level that comes before it in turn. -/
def FollowsFixed (cs : List Candidate) (v : Candidate) : Prop :=
  ∃ w ∈ cs, w.place < v.place ∧ w.IsOf v.level false ∧
    ∀ u ∈ cs, u.IsOf v.level true → u.place < w.place → w.points < u.points

/-- A variadic candidate and one of fixed arity that match with the same level and score. -/
structure IsTie (cs : List Candidate) (v f : Candidate) : Prop where
  variadic_mem : v ∈ cs
  fixed_mem : f ∈ cs
  variadic : v.isVariadic = true
  fixed : f.isVariadic = false
  level_eq : v.level = f.level
  points_eq : v.points = f.points

theorem IsTie.place_ne (htie : IsTie cs v f) (hsorted : cs.Pairwise (·.place < ·.place)) :
    v.place ≠ f.place := by
  intro hplace
  obtain rfl := eq_of_place_eq hsorted htie.variadic_mem htie.fixed_mem hplace
  exact Bool.noConfusion (htie.variadic.symm.trans htie.fixed)

namespace IsChoice

/-- No exact candidate comes before the one that is chosen. -/
theorem place_le_of_exact (h : IsChoice cs w) (hsorted : cs.Pairwise (·.place < ·.place))
    (hc : c ∈ cs) (hexact : c.level = .exact) : w.place ≤ c.place := by
  cases h with
  | leader inexact _ _ => exact absurd hexact (inexact c hc)
  | exact _ first =>
    obtain ⟨before, after, rfl, hbefore⟩ := first
    exact place_le_of_notMem hsorted hc fun hmem => hbefore c hmem hexact

/-- A variadic candidate that wins a tie comes first. -/
theorem place_lt_of_variadic (h : IsChoice cs v) (hsorted : cs.Pairwise (·.place < ·.place))
    (htie : IsTie cs v f) : v.place < f.place := by
  refine Nat.lt_of_le_of_ne ?_ (htie.place_ne hsorted)
  cases h with
  | exact level first =>
    exact place_le_of_exact (.exact level first) hsorted htie.fixed_mem
      (htie.level_eq.symm.trans level)
  | leader _ _ leads =>
    cases leads with
    | fixed _ first => exact Bool.noConfusion (htie.variadic.symm.trans first.1.2)
    | variadic leads first =>
      -- The fixed one does not lead, so a variadic one before it scores no higher.
      by_contra hlt
      refine leads ((fixedLeads_iff hsorted).mpr
        ⟨f, htie.fixed_mem, ⟨htie.level_eq.symm, htie.fixed⟩, fun u hu hvariadic hplace => ?_⟩)
      by_contra hle
      have hpoints := htie.points_eq
      have := first.place_le hsorted hu hvariadic (by omega)
      omega

/-- No variadic candidate is chosen that comes after a fixed one in the lead. -/
theorem not_followsFixed (h : IsChoice cs v) (hsorted : cs.Pairwise (·.place < ·.place))
    (hvariadic : v.isVariadic = true) : ¬FollowsFixed cs v := by
  rintro ⟨w, hw, hplace, hfixed, hbelow⟩
  cases h with
  | exact level first =>
    have := place_le_of_exact (.exact level first) hsorted hw (hfixed.1.trans level)
    omega
  | leader _ _ leads =>
    cases leads with
    | fixed _ first => exact Bool.noConfusion (hvariadic.symm.trans first.1.2)
    | variadic leads _ => exact leads ((fixedLeads_iff hsorted).mpr ⟨w, hw, hfixed, hbelow⟩)

/-- A fixed candidate that wins a tie although it comes second owes that to a fixed one that was in
the lead before. -/
theorem followsFixed_of_fixed (h : IsChoice cs f) (hsorted : cs.Pairwise (·.place < ·.place))
    (htie : IsTie cs v f) (hfirst : v.place < f.place) : FollowsFixed cs v := by
  cases h with
  | exact level first =>
    have := place_le_of_exact (.exact level first) hsorted htie.variadic_mem
      (htie.level_eq.trans level)
    omega
  | leader _ _ leads =>
    cases leads with
    | variadic _ first => exact Bool.noConfusion (htie.fixed.symm.trans first.1.2)
    | fixed leads first =>
      obtain ⟨w, hw, hfixed, hbelow⟩ := (fixedLeads_iff hsorted).mp leads
      rw [← htie.level_eq] at hfixed hbelow
      refine ⟨w, hw, ?_, hfixed, hbelow⟩
      -- After the variadic one it would have to score below it, and so below the chosen one.
      by_contra hlt
      have hne : v.place ≠ w.place := by
        intro hplace
        obtain rfl := eq_of_place_eq hsorted htie.variadic_mem hw hplace
        exact Bool.noConfusion (htie.variadic.symm.trans hfixed.2)
      have hbelow := hbelow v htie.variadic_mem ⟨rfl, htie.variadic⟩ (by omega)
      have hleast := first.least hw ⟨hfixed.1.trans htie.level_eq, hfixed.2⟩
      have hpoints := htie.points_eq
      omega

end IsChoice
end Candidate

namespace Catalog

variable {cat : Catalog} {name : String} {args : Args} {c : Context} {v f : Candidate} {k : Nat}

/-- The overloads in the running for a call, scored on its prepared arguments. -/
def running (cat : Catalog) (name : String) (args : Args) (c : Context) : List Candidate :=
  match cat.overloads? name, elision name args c with
  | some overloads, (.ok (_, prepared), ready) =>
    candidates ready.table (isCastCall name args) ready.inWindow 0 overloads prepared
  | _, _ => []

theorem pairwise_place_running (cat : Catalog) (name : String) (args : Args) (c : Context) :
    (cat.running name args c).Pairwise (·.place < ·.place) := by
  unfold running
  split
  · exact pairwise_place_candidates
  · exact .nil

/-- A call with arguments that goes to an overload goes to the choice among those in the
running. -/
theorem exists_isChoice_of_choice? (hargs : args.isEmpty = false)
    (h : cat.choice? name args c = some (some k)) :
    ∃ w, Candidate.IsChoice (cat.running name args c) w ∧ w.place = k := by
  cases hname : cat.overloads? name with
  | none =>
    rw [choice?, hname] at h
    cases h
  | some overloads =>
    obtain ⟨prepared, ready, helides, hwindow, hwinner⟩ := exists_winner_of_choice? hname hargs h
    rw [← hwindow] at hwinner
    unfold running
    rw [hname, helides]
    exact exists_choice_of_winner hwinner

/-- Of an overload of fixed arity and a variadic one that match a call with the same level and
score, the variadic one is not selected where the fixed one is registered first. Where it is
registered first itself, it is not selected either if an overload of fixed arity before it scores
below all variadic ones before that. Otherwise the fixed one is not selected. -/
theorem choice?_of_tie (hargs : args.isEmpty = false)
    (htie : Candidate.IsTie (cat.running name args c) v f) :
    (f.place < v.place → cat.choice? name args c ≠ some (some v.place)) ∧
      (v.place < f.place →
        (Candidate.FollowsFixed (cat.running name args c) v →
          cat.choice? name args c ≠ some (some v.place)) ∧
        (¬Candidate.FollowsFixed (cat.running name args c) v →
          cat.choice? name args c ≠ some (some f.place))) := by
  have hsorted := cat.pairwise_place_running name args c
  have hchosen : ∀ {d : Candidate}, d ∈ cat.running name args c →
      cat.choice? name args c = some (some d.place) →
        Candidate.IsChoice (cat.running name args c) d := by
    intro d hd hchoice
    obtain ⟨w, hw, hplace⟩ := exists_isChoice_of_choice? hargs hchoice
    rwa [Candidate.eq_of_place_eq hsorted hw.mem hd hplace] at hw
  refine ⟨fun hfirst hchoice => ?_, fun hfirst => ⟨fun hfollows hchoice => ?_,
    fun hfollows hchoice => ?_⟩⟩
  · have := (hchosen htie.variadic_mem hchoice).place_lt_of_variadic hsorted htie
    omega
  · exact (hchosen htie.variadic_mem hchoice).not_followsFixed hsorted htie.variadic hfollows
  · exact hfollows ((hchosen htie.fixed_mem hchoice).followsFixed_of_fixed hsorted htie hfirst)

/-- `f` of one argument of a type that, where it is variadic, takes any further arguments. -/
def unaryFunction (type : ColumnType) (isVariadic : Bool) : Overload :=
  ⟨⟨"f", [⟨type, false⟩], if isVariadic then some ⟨false⟩ else none⟩, default⟩

/-- An INT matches `f(long, var)` and `f(long)` alike, and `f(double)` for more. Where `f(double)`
is registered first the variadic one is not selected, although it comes before its equal. -/
theorem choice?_of_tie_fixedLeads :
    let cat : Catalog :=
      ⟨[("f", [unaryFunction .double false, unaryFunction .long true, unaryFunction .long false])],
        []⟩
    let variadic : Candidate := ⟨1, ⟨.fuzzy, 1⟩, true, true⟩
    let fixed : Candidate := ⟨2, ⟨.fuzzy, 1⟩, false, true⟩
    intColumn.isEmpty = false ∧
      Candidate.IsTie (cat.running "f" intColumn (.fresh 0)) variadic fixed ∧
        variadic.place < fixed.place ∧
          Candidate.FollowsFixed (cat.running "f" intColumn (.fresh 0)) variadic ∧
            cat.choice? "f" intColumn (.fresh 0) ≠ some (some 1) := by
  intro cat variadic fixed
  let double : Candidate := ⟨0, ⟨.fuzzy, 3⟩, false, true⟩
  have hrunning : cat.running "f" intColumn (.fresh 0) = [double, variadic, fixed] := rfl
  have htie : Candidate.IsTie (cat.running "f" intColumn (.fresh 0)) variadic fixed := by
    rw [hrunning]
    exact ⟨by simp, by simp, rfl, rfl, rfl, rfl⟩
  have hfollows : Candidate.FollowsFixed (cat.running "f" intColumn (.fresh 0)) variadic := by
    rw [hrunning]
    refine ⟨double, by simp, by decide, ⟨rfl, rfl⟩, fun u _ _ hplace => ?_⟩
    exact absurd hplace (Nat.not_lt_zero _)
  have hplace : variadic.place < fixed.place := by decide
  exact ⟨rfl, htie, hplace, hfollows, ((choice?_of_tie rfl htie).2 hplace).1 hfollows⟩

/-- An INT matches `f(int, var)` and `f(int)` exactly. The call goes to the one registered first,
also where that is the variadic one. -/
theorem variadic_chosen_first :
    let cat : Catalog := ⟨[("f", [unaryFunction .int true, unaryFunction .int false])], []⟩
    let variadic : Candidate := ⟨0, ⟨.exact, 0⟩, true, true⟩
    let fixed : Candidate := ⟨1, ⟨.exact, 0⟩, false, true⟩
    intColumn.isEmpty = false ∧
      Candidate.IsTie (cat.running "f" intColumn (.fresh 0)) variadic fixed ∧
        cat.choice? "f" intColumn (.fresh 0) = some (some variadic.place) := by
  intro cat variadic fixed
  have hrunning : cat.running "f" intColumn (.fresh 0) = [variadic, fixed] := rfl
  refine ⟨rfl, ?_, rfl⟩
  rw [hrunning]
  exact ⟨by simp, by simp, rfl, rfl, rfl, rfl⟩

end Catalog
end SqlResolution
