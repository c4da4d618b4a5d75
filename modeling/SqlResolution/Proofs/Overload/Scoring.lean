import SqlResolution.Proofs.Evaluator.Replacement
import SqlResolution.Proofs.Overload.Acceptance

/-!
# What an overload beats

Where the constants among the arguments are plain, all overloads of a name are scored on the same
arguments. The one that a call goes to is of no lower level than another, and costs no more than
another of its level where that is below exact. What an overload of two parameters scores is read
off how each of them meets its argument.
-/
namespace SqlResolution

variable {args : Args}

open Evaluator

/-- Constants that are plain are left as they are by evaluation. -/
theorem Evaluator.FixesConstants.steady {e : Evaluator} (h : e.FixesConstants) : e.Steady :=
  fun hconstant binds => (h hconstant).snd_eval binds .empty

theorem Parameter.snd_matchArgument {p : Parameter} {charFitsString isCastTarget : Bool}
    {binds : BindTable} {e : Evaluator} (h : e.FixesConstants) :
    (p.matchArgument charFitsString isCastTarget binds e).2 = e :=
  (p.evolves_matchArgument charFitsString isCastTarget binds e).eq_of_steady h.steady

theorem snd_scan {binds : BindTable} {isCast inWindow : Bool} {i : Nat} {os : List Overload}
    {t : CandidateTracker} (h : ∀ e ∈ args.evaluators, e.FixesConstants) :
    (scan binds isCast inWindow i os t args).2 = args :=
  snd_scan_of_steady fun e he => (h e he).steady

namespace Overload

variable {o : Overload} {binds : BindTable} {isCast : Bool} {args' : Args}

theorem rawScore?_of_reevaluated (h : ∀ e ∈ args.evaluators, e.FixesConstants)
    (hargs' : args.Each Evaluator.Reevaluated args') :
    o.rawScore? binds isCast args' = o.rawScore? binds isCast args := by
  have hevolve : args.Evolve args' := hargs'.mono fun _ _ hreevaluated => hreevaluated.evolves
  unfold rawScore?
  rw [hevolve.evaluators_eq fun e he => (h e he).steady]

/-- Arguments of which constants were evaluated score as before. -/
theorem fst_score_of_reevaluated (h : ∀ e ∈ args.evaluators, e.FixesConstants)
    (hargs' : args.Each Evaluator.Reevaluated args') (inWindow : Bool) :
    (o.score binds isCast inWindow args').1 = (o.score binds isCast inWindow args).1 := by
  rw [fst_score, fst_score, rawScore?_of_reevaluated h hargs']

end Overload

/-- An overload that matches is in the running. -/
theorem exists_mem_candidates {binds : BindTable} {isCast inWindow : Bool} {i : Nat}
    {os : List Overload} {o : Overload} (ho : o ∈ os)
    (h : ∀ e ∈ args.evaluators, e.FixesConstants)
    (harity : o.signature.acceptsArity args.size = true)
    (hmatch : (o.score binds isCast inWindow args).1.level ≠ .noMatch) :
    ∃ w ∈ candidates binds isCast inWindow i os args,
      w.score = (o.score binds isCast inWindow args).1 ∧
        w.isVariadic = o.signature.isVariadic := by
  obtain ⟨k, hk⟩ := List.mem_iff_getElem?.mp ho
  obtain ⟨w, hw, args', -, hargs', hscore, hvariadic⟩ := exists_candidate (i := i) hk harity
    fun args' hargs' => by rwa [Overload.fst_score_of_reevaluated h hargs' _]
  exact ⟨w, hw, hscore.trans (Overload.fst_score_of_reevaluated h hargs' _), hvariadic⟩

/-- Where an overload matches, one is taken. -/
theorem exists_winner {binds : BindTable} {isCast inWindow : Bool} {os : List Overload}
    {o : Overload} (ho : o ∈ os) (h : ∀ e ∈ args.evaluators, e.FixesConstants)
    (harity : o.signature.acceptsArity args.size = true)
    (hmatch : (o.score binds isCast inWindow args).1.level ≠ .noMatch) :
    ∃ w ∈ os, (scan binds isCast inWindow 0 os .start args).1.winner.bind (os[·]?) = some w := by
  obtain ⟨w, hw, -⟩ := exists_mem_candidates (i := 0) ho h harity hmatch
  obtain ⟨hnone, -⟩ | ⟨choice, o', -, -, ho', hwinner, -⟩ :=
    scan_chooses binds isCast inWindow os args
  · rw [hnone] at hw
    cases hw
  · exact ⟨o', List.mem_of_getElem? ho', hwinner⟩

/-- A candidate has the score of its overload on the arguments. -/
theorem exists_of_mem_candidates {binds : BindTable} {isCast inWindow : Bool} {i : Nat}
    {os : List Overload} (h : ∀ e ∈ args.evaluators, e.FixesConstants) {w : Candidate}
    (hw : w ∈ candidates binds isCast inWindow i os args) :
    ∃ k o, os[k]? = some o ∧ w.place = i + k ∧ o.signature.acceptsArity args.size = true ∧
      w.score = (o.score binds isCast inWindow args).1 ∧
        w.isVariadic = o.signature.isVariadic := by
  obtain ⟨k, o, args', hk, hplace, harity, hargs', hscore, -, hvariadic⟩ :=
    exists_scored_of_mem_candidates hw
  exact ⟨k, o, hk, hplace, harity,
    hscore.trans (Overload.fst_score_of_reevaluated h hargs' _), hvariadic⟩

/-- The overload that a call goes to is the choice among those in the running. -/
theorem exists_choice {binds : BindTable} {isCast inWindow : Bool} {os : List Overload}
    {w : Overload} (h : ∀ e ∈ args.evaluators, e.FixesConstants)
    (hwinner : (scan binds isCast inWindow 0 os .start args).1.winner.bind (os[·]?) = some w) :
    ∃ cw, Candidate.IsChoice (candidates binds isCast inWindow 0 os args) cw ∧
      w.signature.acceptsArity args.size = true ∧
        cw.score = (w.score binds isCast inWindow args).1 ∧
          cw.isVariadic = w.signature.isVariadic := by
  obtain ⟨-, hnone⟩ | ⟨cw, w', -, hchoice, hplace, hwinner', -, -⟩ :=
    scan_chooses binds isCast inWindow os args
  · rw [hwinner] at hnone
    cases hnone
  · rw [hwinner] at hwinner'
    cases hwinner'
    obtain ⟨k, w', hk, hplace', harity, hscore, hvariadic⟩ := exists_of_mem_candidates h hchoice.mem
    obtain rfl : w = w' := by
      rw [hplace', Nat.zero_add, hk] at hplace
      exact (Option.some.inj hplace).symm
    exact ⟨cw, hchoice, harity, hscore, hvariadic⟩

/-- The overload that a call goes to beats each other in the running. -/
theorem winner_beats {binds : BindTable} {isCast inWindow : Bool} {os : List Overload}
    {o w : Overload} (h : ∀ e ∈ args.evaluators, e.FixesConstants)
    (hwinner : (scan binds isCast inWindow 0 os .start args).1.winner.bind (os[·]?) = some w)
    (ho : o ∈ os) (harity : o.signature.acceptsArity args.size = true)
    (hmatch : (o.score binds isCast inWindow args).1.level ≠ .noMatch) :
    (o.score binds isCast inWindow args).1.level.rank ≤
        (w.score binds isCast inWindow args).1.level.rank ∧
      ((o.score binds isCast inWindow args).1.level =
          (w.score binds isCast inWindow args).1.level →
        (o.score binds isCast inWindow args).1.level ≠ .exact →
        (o.signature.isVariadic = true → w.signature.isVariadic = true) →
          (w.score binds isCast inWindow args).1.score ≤
            (o.score binds isCast inWindow args).1.score) := by
  obtain ⟨co, hco, hscore, hvariadic⟩ := exists_mem_candidates (i := 0) ho h harity hmatch
  obtain ⟨cw, hchoice, -, hscore', hvariadic'⟩ := exists_choice h hwinner
  rw [← hscore, ← hscore', ← hvariadic, ← hvariadic']
  cases hchoice with
  | exact level _ =>
    refine ⟨?_, fun hsame hinexact => absurd (hsame.trans level) hinexact⟩
    have htop := co.score.level.rank_le
    rwa [← level] at htop
  | leader _ top leads => exact ⟨top co hco, fun hsame _ hfixed => leads.least hco hsame hfixed⟩

/-- One score is above another: of a higher level, or of the same level below exact and for less. -/
def CandidateScore.Outranks (s s' : CandidateScore) : Prop :=
  s.level ≠ .noMatch ∧ (s.level.rank ≤ s'.level.rank →
    s.level = s'.level ∧ s.level ≠ .exact ∧ s.score < s'.score)

instance (s s' : CandidateScore) : Decidable (s.Outranks s') :=
  inferInstanceAs (Decidable (_ ∧ _))

/-- No overload in the running scores above the one that a call goes to. -/
theorem winner_not_outranked {binds : BindTable} {isCast inWindow : Bool} {os : List Overload}
    {o w : Overload} (h : ∀ e ∈ args.evaluators, e.FixesConstants)
    (hwinner : (scan binds isCast inWindow 0 os .start args).1.winner.bind (os[·]?) = some w)
    (ho : o ∈ os) (harity : o.signature.acceptsArity args.size = true)
    (hfixed : o.signature.isVariadic = true → w.signature.isVariadic = true) :
    ¬(o.score binds isCast inWindow args).1.Outranks (w.score binds isCast inWindow args).1 := by
  rintro ⟨hmatch, habove⟩
  obtain ⟨hrank, hleast⟩ := winner_beats h hwinner ho harity hmatch
  obtain ⟨hlevel, hinexact, hless⟩ := habove hrank
  exact absurd hless (Int.not_lt.mpr (hleast hlevel hinexact hfixed))

/-! ### Overloads of two parameters -/

/-- The level after a match. -/
def MatchLevel.merge (level : MatchLevel) : ArgumentMatch → MatchLevel
  | .exact => level.mergeExact
  | .coerced _ isNull => level.mergeCoerced isNull
  | .none => level

/-- What a match costs. -/
def ArgumentMatch.cost : ArgumentMatch → Nat
  | coerced distance _ => distance
  | _ => 0

/-- How a parameter of a number meets an argument of a type that may be passed as it. -/
def TypeTag.meets (source target : TypeTag) : ArgumentMatch :=
  if source = target then .exact else .coerced (source.distance target) (source == .null)

theorem TypeTag.meets_ne_none (source target : TypeTag) : source.meets target ≠ .none := by
  unfold meets
  split <;> exact ArgumentMatch.noConfusion

theorem Parameter.matchArgument_number {target : TypeTag} (htarget : target.isNumeric = true)
    {e : Evaluator} (hdistance : e.type.tag.distance target ≠ noCoercion) (charFitsString : Bool)
    (binds : BindTable) :
    (⟨.of target, false⟩ : Parameter).matchArgument charFitsString false binds e =
      (e.type.tag.meets target, e) := by
  have hplain : target ≠ .array ∧ target ≠ .arrayString ∧ target ≠ .char ∧ target ≠ .string ∧
      target ≠ .geoHash := by
    refine ⟨?_, ?_, ?_, ?_, ?_⟩ <;> rintro rfl <;> cases htarget
  obtain ⟨harray, hstrings, hchar, hstring, hgeohash⟩ := hplain
  have hflat : e.type.tag ≠ .array ∧ e.type.tag ≠ .arrayString := by
    refine ⟨?_, ?_⟩ <;> intro htag <;> rw [htag] at hdistance <;> revert htarget hdistance <;>
      cases target <;> decide
  have htag : (⟨.of target, false⟩ : Parameter).tag = target := by
    simp [Parameter.tag, Parameter.isArray, ColumnType.isArray, harray]
  simp only [matchArgument, matchesExactly, takesCharAsString, coercionDistance, htag,
    Parameter.isArray, ColumnType.isArray, ColumnType.tag_of, beq_eq_false_iff_ne.mpr harray,
    beq_eq_false_iff_ne.mpr hstrings, beq_eq_false_iff_ne.mpr hchar,
    beq_eq_false_iff_ne.mpr hstring, beq_eq_false_iff_ne.mpr hgeohash,
    beq_eq_false_iff_ne.mpr hflat.1, beq_eq_false_iff_ne.mpr hflat.2]
  by_cases hsame : e.type.tag = target
  · simp [TypeTag.meets, hsame]
  · simp [TypeTag.meets, hsame, Ne.symm hsame, hdistance]

/-- A parameter of a text meets a text of its type. -/
theorem Parameter.matchArgument_text {e : Evaluator} (h : e.type.tag.isString = true)
    (charFitsString : Bool) (binds : BindTable) :
    (⟨.of e.type.tag, false⟩ : Parameter).matchArgument charFitsString false binds e =
      (.exact, e) := by
  have hflat : e.type.tag ≠ .array ∧ e.type.tag ≠ .arrayString := by
    refine ⟨?_, ?_⟩ <;> intro htag <;> rw [htag] at h <;> cases h
  obtain ⟨harray, hstrings⟩ := hflat
  simp [matchArgument, matchesExactly, Parameter.tag, Parameter.isArray, ColumnType.isArray, harray,
    hstrings]

/-- The type of a cast is met exactly or not at all. -/
theorem Parameter.fst_matchArgument_castType (p : Parameter) (charFitsString : Bool)
    (binds : BindTable) (e : Evaluator) :
    (p.matchArgument charFitsString true binds e).1 = .exact ∨
      (p.matchArgument charFitsString true binds e).1 = .none := by
  unfold matchArgument
  dsimp only
  repeat' split
  all_goals first | exact .inl rfl | exact .inr rfl | contradiction

/-- The type of a cast that a parameter takes is met exactly. -/
theorem Parameter.matchArgument_castType {target : ColumnType} {type : Evaluator}
    (htype : (⟨target, true⟩ : Parameter).admits true true type = true)
    (hfixes : type.FixesConstants) (binds : BindTable) :
    (⟨target, true⟩ : Parameter).matchArgument true true binds type = (.exact, type) := by
  have hshort : (⟨target, true⟩ : Parameter).isTooShortFor binds type = false := by
    cases hshort : (⟨target, true⟩ : Parameter).isTooShortFor binds type with
    | false => rfl
    | true =>
      simp only [isTooShortFor, Bool.and_eq_true, beq_iff_eq] at hshort
      obtain ⟨⟨⟨hstring, hchar⟩, -⟩, -⟩ := hshort
      simp [admits, matchesExactly, takesCharAsString, hstring, hchar, ColumnType.isArray,
        ColumnType.isGeohash, TypeTag.isGeohash] at htype
  have hsome := (matchArgument_ne_none_iff _ _ _ binds _).mpr ⟨htype, hshort⟩
  refine Prod.ext ?_ (snd_matchArgument hfixes)
  exact (fst_matchArgument_castType _ _ _ _).resolve_right hsome

/-- What an overload of two parameters scores, by how they meet their arguments. -/
def Overload.pairScore (isWindow inWindow : Bool) (m n : ArgumentMatch) : CandidateScore :=
  adjustForWindow isWindow inWindow ⟨(MatchLevel.noMatch.merge m).merge n, m.cost + n.cost⟩

theorem Overload.score_pair (o : Overload) (args : Args) (inWindow : Bool) {p q : Parameter}
    {e f : Evaluator} {binds : BindTable} {isCast : Bool} {m n : ArgumentMatch}
    (hp : o.signature.parameters = [p, q]) (hargs : args.evaluators = [e, f])
    (hm : p.matchArgument o.factory.charFitsString false binds e = (m, e)) (hne : m ≠ .none)
    (hn : q.matchArgument o.factory.charFitsString isCast binds f = (n, f)) (hne' : n ≠ .none) :
    (o.score binds isCast inWindow args).1 = pairScore o.isWindow inWindow m n := by
  have hcount : (o.signature.fixedCount == 0) = false := by
    rw [Signature.fixedCount, hp]
    rfl
  have hfirst : (isCast && 0 == 1) = false := by cases isCast <;> rfl
  have hsecond : (isCast && 0 + 1 == 1) = isCast := by cases isCast <;> rfl
  simp only [score, pairScore, hp, hargs, hcount, Bool.false_eq_true, if_false, matchAll, hfirst,
    hm, hsecond, hn]
  cases m with
  | none => exact absurd rfl hne
  | exact =>
    cases n with
    | none => exact absurd rfl hne'
    | exact => rfl
    | coerced distance isNull =>
      simp [MatchLevel.merge, ArgumentMatch.cost]
  | coerced distance isNull =>
    cases n with
    | none => exact absurd rfl hne'
    | exact => simp [MatchLevel.merge, ArgumentMatch.cost]
    | coerced distance' isNull' => simp [MatchLevel.merge, ArgumentMatch.cost]

theorem Overload.score_numbers (o : Overload) (args : Args) (target : TypeTag)
    (htarget : target.isNumeric = true) {e f : Evaluator}
    (hp : o.signature.parameters = [⟨.of target, false⟩, ⟨.of target, false⟩])
    (hargs : args.evaluators = [e, f]) (he : e.type.tag.distance target ≠ noCoercion)
    (hf : f.type.tag.distance target ≠ noCoercion) (binds : BindTable) (inWindow : Bool) :
    (o.score binds false inWindow args).1 =
      pairScore o.isWindow inWindow (e.type.tag.meets target) (f.type.tag.meets target) :=
  score_pair o args inWindow hp hargs (Parameter.matchArgument_number htarget he _ _)
    (TypeTag.meets_ne_none _ _) (Parameter.matchArgument_number htarget hf _ _)
    (TypeTag.meets_ne_none _ _)

end SqlResolution
