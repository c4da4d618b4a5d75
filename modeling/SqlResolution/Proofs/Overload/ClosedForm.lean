import Mathlib.Algebra.GroupWithZero.Nat
import SqlResolution.Proofs.Overload.Scoring
import SqlResolution.Proofs.Overload.Untyped

/-!
# What an overload scores

The level of an overload is folded from how its parameters meet their arguments, and its score is
summed. The order matters to the level only in that a NULL may come first. So both can be told from
the outcomes as a whole.
-/
namespace SqlResolution

namespace ArgumentMatch

/-- Whether the argument is a NULL that is coerced. -/
def isCoercedNull : ArgumentMatch → Bool
  | coerced _ isNull => isNull
  | _ => false

end ArgumentMatch

namespace MatchLevel

variable {ms : List ArgumentMatch}

/-- Mixed arguments stay mixed. -/
theorem foldl_merge_mixed (ms : List ArgumentMatch) : ms.foldl merge .mixed = .mixed := by
  induction ms with
  | nil => rfl
  | cons m ms ih => cases m <;> exact ih

/-- Exact arguments stay exact as long as none is coerced. -/
theorem foldl_merge_exact (hsome : .none ∉ ms) :
    ms.foldl merge .exact = if ∀ m ∈ ms, m = .exact then .exact else .mixed := by
  induction ms with
  | nil => rfl
  | cons m ms ih =>
    rw [List.mem_cons, not_or] at hsome
    cases m with
    | exact => simpa [merge, mergeExact] using ih hsome.2
    | coerced distance isNull => simpa [merge, mergeCoerced] using foldl_merge_mixed ms
    | none => exact absurd rfl hsome.1

/-- Coerced arguments are no better as long as none is exact. -/
theorem foldl_merge_fuzzy (hsome : .none ∉ ms) :
    ms.foldl merge .fuzzy = if .exact ∉ ms then .fuzzy else .mixed := by
  induction ms with
  | nil => rfl
  | cons m ms ih =>
    rw [List.mem_cons, not_or] at hsome
    cases m with
    | exact => simpa [merge, mergeExact] using foldl_merge_mixed ms
    | coerced distance isNull => simpa [merge, mergeCoerced] using ih hsome.2
    | none => exact absurd rfl hsome.1

/-- The level of arguments that all match, told from their outcomes as a whole. -/
def ofOutcomes (ms : List ArgumentMatch) : MatchLevel :=
  if ∀ m ∈ ms, m = .exact then .exact
  else if .exact ∉ ms ∧ ms.head?.any ArgumentMatch.isCoercedNull = false then .fuzzy
  else .mixed

/-- The level that is folded from the start of an overload. Only the first argument meets that
start, so past it one of the folds above goes on. -/
theorem foldl_merge (hsome : .none ∉ ms) :
    ms.foldl merge (if ms.isEmpty then .exact else .noMatch) = ofOutcomes ms := by
  cases ms with
  | nil => rfl
  | cons m ms =>
    rw [List.mem_cons, not_or] at hsome
    cases m with
    | none => exact absurd rfl hsome.1
    | exact =>
      have hfold := foldl_merge_exact hsome.2
      simpa [merge, mergeExact, ofOutcomes] using hfold
    | coerced distance isNull =>
      cases isNull with
      | true =>
        have hfold := foldl_merge_mixed ms
        simpa [merge, mergeCoerced, ofOutcomes, ArgumentMatch.isCoercedNull] using hfold
      | false =>
        have hfold := foldl_merge_fuzzy hsome.2
        simpa [merge, mergeCoerced, ofOutcomes, ArgumentMatch.isCoercedNull] using hfold

example : ofOutcomes [.coerced 0 true, .coerced 1 false] = .mixed ∧
    ofOutcomes [.coerced 1 false, .coerced 0 true] = .fuzzy := by decide

end MatchLevel

namespace Parameter

/-- How a parameter meets what stands in its place, if anything does. -/
def outcome (p : Parameter) (charFitsString isCastTarget : Bool) (binds : BindTable) :
    Option Evaluator → ArgumentMatch
  | none => .none
  | some e => (p.matchArgument charFitsString isCastTarget binds e).1

/-- An argument is coerced for its distance, and its type tells whether it is a NULL. -/
theorem eq_of_coerced {p : Parameter} {charFitsString isCastTarget : Bool} {binds : BindTable}
    {e : Evaluator} {distance : Nat} {isNull : Bool}
    (h : (p.matchArgument charFitsString isCastTarget binds e).1 = .coerced distance isNull) :
    distance = (p.coercionDistance charFitsString binds e).1 ∧ isNull = (e.type.tag == .null) := by
  have htype := (p.reevaluated_coercionDistance charFitsString binds e).evolves.type
  revert h
  unfold matchArgument
  dsimp only
  repeat' split
  all_goals intro h; cases h
  rw [htype]
  exact ⟨rfl, rfl⟩

end Parameter

namespace Overload

variable (o : Overload) (binds : BindTable) (isCast inWindow : Bool) (args : Args)

/-- How the fixed parameters meet the arguments. -/
def outcomes : List ArgumentMatch :=
  o.signature.parameters.mapIdx fun i p =>
    p.outcome o.factory.charFitsString (isCast && i == 1) binds (args.get? i)

/-- Parameters match where each does, and then their outcomes are folded and summed. -/
theorem fst_matchAll (charFitsString : Bool) (i : Nat) (ps : List Parameter) (es : List Evaluator)
    (s : CandidateScore) {ms : List ArgumentMatch}
    (hms : ms = ps.mapIdx fun k p =>
      p.outcome charFitsString (isCast && i + k == 1) binds es[k]?) :
    (matchAll charFitsString isCast binds i ps es s).1 =
      if .none ∈ ms then none
      else some ⟨ms.foldl MatchLevel.merge s.level, s.score + (ms.map ArgumentMatch.cost).sum⟩ := by
  induction ps generalizing i es s ms with
  | nil => simp [hms, matchAll]
  | cons p ps ih =>
    cases es with
    | nil => simp [hms, List.mapIdx_cons, matchAll, Parameter.outcome]
    | cons e es =>
      rw [List.mapIdx_cons] at hms
      obtain ⟨m, rest, rfl, hm, hrest⟩ : ∃ m rest, ms = m :: rest ∧
          m = (p.matchArgument charFitsString (isCast && i == 1) binds e).1 ∧
            rest = ps.mapIdx fun k p =>
              p.outcome charFitsString (isCast && i + (k + 1) == 1) binds es[k]? :=
        ⟨_, _, hms, rfl, rfl⟩
      simp only [← Nat.add_assoc, Nat.add_right_comm i _ 1] at hrest
      simp only [matchAll, ← hm]
      cases m with
      | none => simp
      | exact => simp [ih _ _ _ hrest, MatchLevel.merge, ArgumentMatch.cost]
      | coerced distance isNull =>
        simp [ih _ _ _ hrest, MatchLevel.merge, ArgumentMatch.cost, Int.add_assoc]

/-- What is scored before the window context is looked at. -/
theorem rawScore?_eq_outcomes :
    o.rawScore? binds isCast args =
      if .none ∈ o.outcomes binds isCast args then none
      else some ⟨.ofOutcomes (o.outcomes binds isCast args),
        ((o.outcomes binds isCast args).map ArgumentMatch.cost).sum⟩ := by
  have hms : o.outcomes binds isCast args = o.signature.parameters.mapIdx fun k p =>
      p.outcome o.factory.charFitsString (isCast && 0 + k == 1) binds args.evaluators[k]? := by
    simp only [Nat.zero_add]
    rfl
  have hstart : (o.signature.fixedCount == 0) = (o.outcomes binds isCast args).isEmpty := by
    unfold Signature.fixedCount outcomes
    cases o.signature.parameters with
    | nil => rfl
    | cons p ps => simp [List.mapIdx_cons]
  rw [rawScore?, fst_matchAll binds isCast _ 0 _ _ _ hms, hstart]
  split
  · rfl
  · rename_i hsome
    simp only [MatchLevel.foldl_merge hsome, Int.zero_add]

/-- An overload fails where a fixed parameter has no argument or refuses it. Elsewhere its level
depends on whether it is for the context, whether all arguments are exact, whether some is, and
whether the first is a NULL that is coerced; and its score is the sum of the distances, less the
bonus of a window function in a window clause. -/
theorem score_of_outcomes :
    ((o.score binds isCast inWindow args).1.level = .noMatch ↔
        ∃ i, i < o.signature.fixedCount ∧
          ∀ e, args.get? i = some e → o.Refuses binds isCast i e) ∧
      (o.score binds isCast inWindow args).1 =
        (if .none ∈ o.outcomes binds isCast args then .noMatch
        else
          { level :=
              if o.isWindow ≠ inWindow then .fuzzy
              else if ∀ m ∈ o.outcomes binds isCast args, m = .exact then .exact
              else if .exact ∉ o.outcomes binds isCast args ∧
                (o.outcomes binds isCast args).head?.any ArgumentMatch.isCoercedNull = false
              then .fuzzy
              else .mixed
            score :=
              ((o.outcomes binds isCast args).map ArgumentMatch.cost).sum -
                if o.isWindow = true ∧ inWindow = true then windowBonus else 0 }) ∧
      ∀ i distance isNull, (o.outcomes binds isCast args)[i]? = some (.coerced distance isNull) →
        ∃ p e, o.signature.parameters[i]? = some p ∧ args.get? i = some e ∧
          distance = (p.coercionDistance o.factory.charFitsString binds e).1 ∧
            isNull = (e.type.tag == .null) := by
  refine ⟨score_eq_noMatch_iff, ?_, fun i distance isNull h => ?_⟩
  · rw [fst_score, rawScore?_eq_outcomes]
    split
    · rfl
    · simp only [Option.map_some, Option.getD_some, adjustForWindow, MatchLevel.ofOutcomes]
      cases o.isWindow <;> cases inWindow <;> simp
  · obtain ⟨p, hp, houtcome⟩ := Option.map_eq_some_iff.mp ((List.getElem?_mapIdx ..).symm.trans h)
    cases he : args.get? i with
    | none =>
      rw [he] at houtcome
      cases houtcome
    | some e =>
      rw [he] at houtcome
      exact ⟨p, e, hp, rfl, Parameter.eq_of_coerced houtcome⟩

end Overload
end SqlResolution
