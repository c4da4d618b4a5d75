import SqlResolution.Proofs.Overload.Selection

/-!
# Which arguments a parameter takes

What matching asks of an argument is a matter of its type and traits, but for a constant string that
meets a CHAR, which must be short enough. So an overload that the scan of all chose takes the types
and traits that the call's arguments had at first.
-/
namespace SqlResolution

namespace MatchLevel

theorem mergeExact_ne_noMatch (level : MatchLevel) : level.mergeExact ≠ .noMatch := by
  cases level <;> decide

theorem mergeExact_eq_exact_iff (level : MatchLevel) :
    level.mergeExact = .exact ↔ level = .noMatch ∨ level = .exact := by
  cases level <;> decide

/-- Once an argument was coerced there is a match, and it is not exact. -/
theorem mergeCoerced_ne (level : MatchLevel) (isNull : Bool) :
    level.mergeCoerced isNull ≠ .noMatch ∧ level.mergeCoerced isNull ≠ .exact := by
  cases level <;> cases isNull <;> decide

end MatchLevel

namespace Parameter

/-- Whether a parameter takes arguments of the type and traits of this one, whatever they hold. -/
def admits (p : Parameter) (charFitsString isCastTarget : Bool) (e : Evaluator) : Bool :=
  if p.constant && !e.isConstant then false
  else if p.isArray != e.type.isArray ||
    (p.tag == .arrayString) != (e.type.tag == .arrayString) then false
  else if e.type.tag == .arrayString then true
  else if e.type.isArray then e.type.element == p.tag
  else if p.matchesExactly charFitsString e then true
  else if isCastTarget || (e.type.tag == .char && p.tag == .string && !charFitsString) then false
  else e.type.tag.distance p.tag != noCoercion || e.isUndefined

/-- Whether a CHAR is too short for an argument, which is a constant string. -/
def isTooShortFor (p : Parameter) (binds : BindTable) (e : Evaluator) : Bool :=
  e.type.tag == .string && p.tag == .char && e.isConstant &&
    ((e.evalConstant binds).1.asStr?.map fun s => decide (1 < s.length)).getD false

theorem admits_congr {e e' : Evaluator} (htype : e'.type = e.type) (htraits : e'.traits = e.traits)
    (p : Parameter) (charFitsString isCastTarget : Bool) :
    p.admits charFitsString isCastTarget e' = p.admits charFitsString isCastTarget e := by
  unfold admits matchesExactly takesCharAsString Evaluator.isUndefined Evaluator.isConstant
  rw [htype, htraits]

variable {p : Parameter} {binds : BindTable} {e : Evaluator}

theorem isTooShortFor_of_ne_char (hchar : p.tag ≠ .char) : p.isTooShortFor binds e = false := by
  unfold isTooShortFor
  simp [hchar]

theorem isTooShortFor_of_ne_string (hstring : e.type.tag ≠ .string) :
    p.isTooShortFor binds e = false := by
  unfold isTooShortFor
  simp [hstring]

theorem isTooShortFor_of_matchesExactly {charFitsString : Bool}
    (hexact : p.matchesExactly charFitsString e = true) : p.isTooShortFor binds e = false := by
  by_cases hstring : e.type.tag = .string
  · by_cases hchar : p.tag = .char
    · simp [matchesExactly, takesCharAsString, hstring, hchar] at hexact
    · exact isTooShortFor_of_ne_char hchar
  · exact isTooShortFor_of_ne_string hstring

/-- An argument that is no exact match is coerced where there is a distance. -/
theorem coercionDistance_iff (p : Parameter) (charFitsString : Bool) (binds : BindTable)
    (e : Evaluator) :
    ((p.coercionDistance charFitsString binds e).1 != noCoercion ||
        (p.coercionDistance charFitsString binds e).2.isUndefined) = true ↔
      (if e.type.tag == .char && p.tag == .string && !charFitsString then false
        else e.type.tag.distance p.tag != noCoercion || e.isUndefined) = true ∧
      p.isTooShortFor binds e = false := by
  by_cases htext : e.type.tag = .string ∧ p.tag = .char
  · obtain ⟨hstring, hchar⟩ := htext
    have hdistance : TypeTag.distance .string .char = 2 := by decide
    have hundefined : (e.evalConstant binds).2.isUndefined = false := by
      rw [Evaluator.isUndefined, Evaluator.evalConstant, Evaluator.type_eval,
        ColumnType.isUndefined, hstring]
      rfl
    cases hconstant : e.isConstant with
    | false =>
      have hcoerced : p.coercionDistance charFitsString binds e = (4, e) := by
        simp [coercionDistance, hstring, hchar, hconstant, hdistance]
      simp [hcoerced, isTooShortFor, hstring, hchar, hconstant, hdistance, noCoercion]
    | true =>
      generalize hlong : ((e.evalConstant binds).1.asStr?.map fun s =>
        decide (1 < s.length)).getD false = isLong
      have hcoerced : p.coercionDistance charFitsString binds e =
          (if isLong then noCoercion else 2, (e.evalConstant binds).2) := by
        simp [coercionDistance, hstring, hchar, hconstant, hdistance, ← hlong]
      cases isLong <;>
        simp [hcoerced, isTooShortFor, hstring, hchar, hconstant, hdistance, hundefined, hlong,
          noCoercion]
  · have hshort : p.isTooShortFor binds e = false := by
      by_cases hstring : e.type.tag = .string
      · exact isTooShortFor_of_ne_char fun hchar => htext ⟨hstring, hchar⟩
      · exact isTooShortFor_of_ne_string hstring
    have hguard : (e.type.tag == .string && p.tag == .char) = false := by
      simpa using htext
    by_cases hwidened : (e.type.tag == .char && p.tag == .string && !charFitsString) = true
    · have hcoerced : p.coercionDistance charFitsString binds e = (noCoercion, e) := by
        simp only [coercionDistance, hguard, hwidened, Bool.false_eq_true, if_true, if_false]
      have hchar : e.type.tag = .char := by
        simp only [Bool.and_eq_true, beq_iff_eq] at hwidened
        exact hwidened.1.1
      have hundefined : e.isUndefined = false := by
        rw [Evaluator.isUndefined, ColumnType.isUndefined, hchar]
        rfl
      simp only [hcoerced, hwidened, hundefined, if_true]
      simp
    · have hcoerced : p.coercionDistance charFitsString binds e =
          (e.type.tag.distance p.tag, e) := by
        simp only [coercionDistance, hguard, hwidened, Bool.false_eq_true, if_false]
      simp only [hcoerced, hwidened, hshort, Bool.false_eq_true, if_false, and_true]

theorem matchArgument_ne_none_iff (p : Parameter) (charFitsString isCastTarget : Bool)
    (binds : BindTable) (e : Evaluator) :
    (p.matchArgument charFitsString isCastTarget binds e).1 ≠ .none ↔
      p.admits charFitsString isCastTarget e = true ∧ p.isTooShortFor binds e = false := by
  unfold matchArgument admits
  by_cases hconstant : (p.constant && !e.isConstant) = true
  · simp only [if_pos hconstant]
    simp
  by_cases harray : (p.isArray != e.type.isArray ||
      (p.tag == .arrayString) != (e.type.tag == .arrayString)) = true
  · simp only [if_neg hconstant, if_pos harray]
    simp
  by_cases hstrings : (e.type.tag == .arrayString) = true
  · have hshort : p.isTooShortFor binds e = false :=
      isTooShortFor_of_ne_string (by simp [eq_of_beq hstrings])
    simp only [if_neg hconstant, if_neg harray, if_pos hstrings, hshort]
    simp
  by_cases hisArray : e.type.isArray = true
  · have hshort : p.isTooShortFor binds e = false :=
      isTooShortFor_of_ne_string (by simp [eq_of_beq hisArray])
    simp only [if_neg hconstant, if_neg harray, if_neg hstrings, if_pos hisArray, hshort]
    cases e.type.element == p.tag <;> simp
  by_cases hexact : p.matchesExactly charFitsString e = true
  · have hshort := @isTooShortFor_of_matchesExactly p binds e _ hexact
    simp only [if_neg hconstant, if_neg harray, if_neg hstrings, if_neg hisArray, if_pos hexact,
      hshort]
    simp
  have hcoercion := p.coercionDistance_iff charFitsString binds e
  generalize p.coercionDistance charFitsString binds e = coerced at hcoercion
  by_cases htarget : isCastTarget = true
  · simp only [if_neg hconstant, if_neg harray, if_neg hstrings, if_neg hisArray, if_neg hexact,
      htarget, Bool.true_or, if_true]
    simp
  simp only [if_neg hconstant, if_neg harray, if_neg hstrings, if_neg hisArray, if_neg hexact,
    htarget, Bool.false_eq_true, if_false, Bool.false_or]
  rw [← hcoercion]
  split <;> simp_all

end Parameter

namespace Overload

variable (o : Overload) (binds : BindTable) (isCast inWindow : Bool)

/-- Whether each parameter takes its argument, as far as types and traits tell. -/
def Admits (args : Args) : Prop :=
  ∀ i p, o.signature.parameters[i]? = some p → ∃ e, args.get? i = some e ∧
    p.admits o.factory.charFitsString (isCast && i == 1) e = true

/-- Parameters match their arguments where each does. -/
theorem matchAll_isSome_iff (charFitsString : Bool) (i : Nat) (ps : List Parameter)
    (es : List Evaluator) (s : CandidateScore) :
    (matchAll charFitsString isCast binds i ps es s).1.isSome = true ↔
      ∀ (k : Nat) (p : Parameter), ps[k]? = some p → ∃ e, es[k]? = some e ∧
        (p.matchArgument charFitsString (isCast && i + k == 1) binds e).1 ≠ .none := by
  induction ps generalizing i es s with
  | nil => simp [matchAll]
  | cons p ps ih =>
    cases es with
    | nil => simpa [matchAll] using ⟨0, p, rfl⟩
    | cons e es =>
      have hsplit : (∀ (k : Nat) (q : Parameter), (p :: ps)[k]? = some q →
          ∃ f, (e :: es)[k]? = some f ∧
            (q.matchArgument charFitsString (isCast && i + k == 1) binds f).1 ≠ .none) ↔
          (p.matchArgument charFitsString (isCast && i == 1) binds e).1 ≠ .none ∧
          ∀ (k : Nat) (q : Parameter), ps[k]? = some q → ∃ f, es[k]? = some f ∧
            (q.matchArgument charFitsString (isCast && i + 1 + k == 1) binds f).1 ≠ .none := by
        constructor
        · intro h
          constructor
          · obtain ⟨f, hf, hmatch⟩ := h 0 p rfl
            cases hf
            exact hmatch
          · intro k q hq
            rw [Nat.add_assoc, Nat.add_comm 1 k]
            exact h (k + 1) q hq
        · rintro ⟨hhead, htail⟩ k q hq
          cases k with
          | zero =>
            cases hq
            exact ⟨e, rfl, hhead⟩
          | succ k =>
            rw [← Nat.add_assoc, Nat.add_right_comm]
            exact htail k q hq
      rw [hsplit]
      simp only [matchAll]
      split
      · rename_i hnone
        simp [hnone]
      · rename_i hexact
        simp [hexact, ih]
      · rename_i hcoerced
        simp [hcoerced, ih]

/-- A score with parameters to match, or at a start that is a match, is a match. -/
theorem level_matchAll_ne_noMatch {charFitsString : Bool} {i : Nat} {ps : List Parameter}
    {es : List Evaluator} {s s' : CandidateScore} (hstart : ps = [] → s.level ≠ .noMatch)
    (hmatch : (matchAll charFitsString isCast binds i ps es s).1 = some s') :
    s'.level ≠ .noMatch := by
  induction ps generalizing i es s with
  | nil =>
    cases hmatch
    exact hstart rfl
  | cons p ps ih =>
    cases es with
    | nil => cases hmatch
    | cons e es =>
      simp only [matchAll] at hmatch
      split at hmatch
      · cases hmatch
      · exact ih (fun _ => s.level.mergeExact_ne_noMatch) hmatch
      · exact ih (fun _ => (s.level.mergeCoerced_ne _).1) hmatch

theorem level_rawScore?_ne_noMatch {args : Args} {s : CandidateScore}
    (h : o.rawScore? binds isCast args = some s) : s.level ≠ .noMatch := by
  refine level_matchAll_ne_noMatch binds isCast (fun hempty => ?_) h
  simp [Signature.fixedCount, hempty]

/-- The window context takes no match away. -/
theorem level_adjustForWindow_ne_noMatch {s : CandidateScore} (h : s.level ≠ .noMatch)
    (isWindow inWindow : Bool) : (adjustForWindow isWindow inWindow s).level ≠ .noMatch := by
  unfold adjustForWindow
  split
  · exact MatchLevel.noConfusion
  · split
    · exact h
    · exact h

/-- A score is a match where each parameter has one. -/
theorem score_ne_noMatch_iff_isSome (args : Args) :
    (o.score binds isCast inWindow args).1.level ≠ .noMatch ↔
      (o.rawScore? binds isCast args).isSome = true := by
  rw [fst_score]
  cases hraw : o.rawScore? binds isCast args with
  | none => simp [CandidateScore.noMatch]
  | some s =>
    simp only [Option.map_some, Option.getD_some, Option.isSome_some, iff_true]
    exact level_adjustForWindow_ne_noMatch (o.level_rawScore?_ne_noMatch binds isCast hraw) _ _

/-- An overload accepts arguments where it admits them and no constant string is too long. -/
theorem score_ne_noMatch_iff (args : Args) :
    (o.score binds isCast inWindow args).1.level ≠ .noMatch ↔ o.Admits isCast args ∧
      ∀ i p e, o.signature.parameters[i]? = some p → args.get? i = some e →
        p.isTooShortFor binds e = false := by
  rw [score_ne_noMatch_iff_isSome, rawScore?, matchAll_isSome_iff]
  simp only [Parameter.matchArgument_ne_none_iff, Nat.zero_add]
  constructor
  · intro h
    refine ⟨?_, ?_⟩
    · intro i p hp
      obtain ⟨e, he, hadmits, -⟩ := h i p hp
      exact ⟨e, he, hadmits⟩
    · intro i p e hp he
      obtain ⟨e', he', -, hlong⟩ := h i p hp
      rw [Args.get?] at he
      rw [he] at he'
      cases he'
      exact hlong
  · rintro ⟨hadmits, hlong⟩ i p hp
    obtain ⟨e, he, hadmit⟩ := hadmits i p hp
    exact ⟨e, he, hadmit, hlong i p e hp he⟩

variable {o binds isCast inWindow} {os : List Overload} {args args' : Args}

/-- Scoring does not change what an overload admits. -/
theorem Admits.of_evolve (hevolve : args.Evolve args') (hadmits : o.Admits isCast args') :
    o.Admits isCast args := by
  intro i p hp
  obtain ⟨e', he', hadmit⟩ := hadmits i p hp
  obtain ⟨e, he, hevolves⟩ := hevolve.exists_of_some he'
  refine ⟨e, he, ?_⟩
  rwa [← Parameter.admits_congr hevolves.type hevolves.traits]

/-- The overload that the scan of all chose admits the arguments. -/
theorem admits_of_winner
    (hwinner : (scan binds isCast inWindow 0 os .start args).1.winner.bind (os[·]?) = some o) :
    o.Admits isCast args := by
  obtain ⟨-, hnone⟩ | ⟨_, o', args', -, -, hchosen, hevolve, hmatch⟩ :=
    scan_chooses binds isCast inWindow os args
  · rw [hwinner] at hnone
    cases hnone
  · rw [hwinner] at hchosen
    cases hchosen
    exact Admits.of_evolve hevolve ((o.score_ne_noMatch_iff ..).mp hmatch).1

end Overload
end SqlResolution
