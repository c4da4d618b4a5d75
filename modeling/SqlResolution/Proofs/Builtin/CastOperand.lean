import SqlResolution.Proofs.Builtin.Casting

/-!
# Operands of casts

An overload of `cast` that takes the operand as it is beats every overload that coerces it. So an
operand of a type that casts take is never brought into another form, and its cast is a cast of it
and nothing else.
-/
namespace SqlResolution

open Evaluator Steps

theorem Catalog.overloads?_congr (c : Catalog) {name name' : String}
    (h : Text.lowerAscii name = Text.lowerAscii name') : c.overloads? name = c.overloads? name' := by
  unfold overloads?
  rw [h]

namespace Builtin

variable {settings : Settings} {name : String} {c : Context} {operand : Evaluator}
  {source target : ColumnType} {p : Parameter} {binds : BindTable}

theorem isCastCall_of_name (h : Text.lowerAscii name = "cast") (operand : Evaluator)
    (target : ColumnType) (positions : List Span) :
    isCastCall name (castCall operand target positions) = true := by
  have hname : Text.eqIgnoringCase name "cast" = true :=
    (Text.eqIgnoringCase_iff name "cast").mpr (h.trans lowerAscii_cast.symm)
  unfold isCastCall
  rw [hname]
  rfl

/-- The parameter of a cast's operand. -/
def operandParameter (type : ColumnType) : Parameter := ⟨type, false⟩

theorem tag_operandParameter (h : source ∈ castTypes) :
    (operandParameter source).tag = source.tag := by
  have hall : ∀ type ∈ castTypes, (operandParameter type).tag = type.tag := by decide
  exact hall source h

/-- How the parameter of an operand meets an operand of a type that casts take. -/
theorem matchArgument_operand (hsource : source ∈ castTypes) (hoperand : operand.type ∈ castTypes)
    (binds : BindTable) :
    let outcome := ((operandParameter source).matchArgument true false binds operand).1
    (outcome = .exact ↔ (operandParameter source).matchesExactly true operand = true) ∧
      ∀ distance isNull, outcome = .coerced distance isNull →
        (operandParameter source).matchesExactly true operand = false ∧
          distance = ((operandParameter source).coercionDistance true binds operand).1 := by
  have hflat : ∀ type ∈ castTypes, type.isArray = false ∧ (type.tag == .arrayString) = false := by
    decide
  obtain ⟨harray, hstrings⟩ := hflat source hsource
  obtain ⟨harray', hstrings'⟩ := hflat operand.type hoperand
  have hparameter : (operandParameter source).isArray = false := harray
  have hconstant : (operandParameter source).constant = false := rfl
  unfold Parameter.matchArgument
  simp only [tag_operandParameter hsource, hparameter, hstrings, harray', hstrings', hconstant,
    Bool.false_and, Bool.false_eq_true, if_false, bne_self_eq_false, Bool.or_self]
  cases (operandParameter source).matchesExactly true operand with
  | true => simp
  | false =>
    simp only [Bool.false_eq_true, if_false]
    split
    · simp
    · simp

/-- A parameter takes an operand of its own type as it is. -/
theorem matchArgument_self (h : operand.type ∈ castTypes) (binds : BindTable) :
    ((operandParameter operand.type).matchArgument true false binds operand).1 = .exact := by
  rw [(matchArgument_operand h h binds).1]
  simp [Parameter.matchesExactly, tag_operandParameter h]

/-- A coercion between the types of casts costs something. -/
theorem cost_pos (hsource : source ∈ castTypes) (hoperand : operand.type ∈ castTypes)
    {distance : Nat} {isNull : Bool}
    (h : ((operandParameter source).matchArgument true false binds operand).1 =
      .coerced distance isNull) : 0 < distance := by
  have hall : ∀ source ∈ castTypes, ∀ type ∈ castTypes, type.tag ≠ source.tag →
      0 < type.tag.distance source.tag := by decide
  obtain ⟨hinexact, rfl⟩ := (matchArgument_operand hsource hoperand binds).2 distance isNull h
  have hne : operand.type.tag ≠ source.tag := by
    intro heq
    simp [Parameter.matchesExactly, tag_operandParameter hsource, heq] at hinexact
  have hpos := hall source hsource operand.type hoperand hne
  unfold Parameter.coercionDistance
  dsimp only
  rw [tag_operandParameter hsource]
  split
  · split
    · dsimp only
      split
      · exact (by decide : 0 < noCoercion)
      · exact hpos
    · exact Nat.mul_pos hpos (by decide)
  · split
    · exact (by decide : 0 < noCoercion)
    · exact hpos

/-- An operand that is matched exactly is not rewritten. -/
theorem rewriteArgument_of_exact (hsource : source ∈ castTypes)
    (hoperand : operand.type ∈ castTypes) (hfixes : operand.FixesConstants)
    (h : ((operandParameter source).matchArgument true false binds operand).1 = .exact)
    (b : BindTable) (position : Span) :
    rewriteArgument b (operandParameter source).tag operand position = .ok operand := by
  rw [(matchArgument_operand hsource hoperand binds).1] at h
  rw [tag_operandParameter hsource]
  simp only [Parameter.matchesExactly, tag_operandParameter hsource, Bool.or_eq_true,
    Bool.and_eq_true, beq_iff_eq] at h
  obtain (hsame | hchar) | ⟨hgeohash, -⟩ := h
  · rw [hsame]
    exact rewriteArgument_self hfixes b position
  · simp only [Parameter.takesCharAsString, Bool.and_eq_true, beq_iff_eq] at hchar
    refine rewriteArgument_of_not_isRewritten ?_ b source.tag position
    rw [hchar.1.1.1.1]
    rfl
  · have hall : ∀ type ∈ castTypes, type.tag ≠ .geoHash := by decide
    exact absurd hgeohash (hall source hsource)

/-- What an overload of `cast` scores is a matter of how it meets the operand. -/
theorem score_cast (hfixes : operand.FixesConstants) (htarget : target ∈ castTypes)
    (positions : List Span) {m : ArgumentMatch}
    (hm : ((operandParameter source).matchArgument true false binds operand).1 = m)
    (hne : m ≠ .none) (inWindow : Bool) :
    ((cast source target).overload.score binds true inWindow
      (castCall operand target positions)).1 = Overload.pairScore false inWindow m .exact := by
  have htype : (⟨target, true⟩ : Parameter).admits true true (.typeName target) = true := by
    have hall : ∀ target ∈ castTypes,
        (⟨target, true⟩ : Parameter).admits true true (.typeName target) = true := by decide +kernel
    exact hall target htarget
  exact Overload.score_pair _ _ inWindow rfl rfl
    (Prod.ext hm (Parameter.snd_matchArgument hfixes)) hne
    (Parameter.matchArgument_castType htype (fun _ => by simp [Plain]) binds)
    ArgumentMatch.noConfusion

/-- A pair of exact matches scores above a coercion that costs something. -/
theorem outranks_coerced {distance : Nat} (hpos : 0 < distance) (isNull inWindow : Bool) :
    (Overload.pairScore false inWindow .exact .exact).Outranks
      (Overload.pairScore false inWindow (.coerced distance isNull) .exact) := by
  cases inWindow <;> cases isNull <;>
    simp [CandidateScore.Outranks, Overload.pairScore, Overload.adjustForWindow, MatchLevel.merge,
      MatchLevel.mergeExact, MatchLevel.mergeCoerced, MatchLevel.rank, ArgumentMatch.cost, hpos]

/-- The overload that wins takes the operand as it is. -/
theorem exact_of_cast_wins {source' : ColumnType} {overloads : List Overload} {inWindow : Bool}
    {positions : List Span} (hcast : cast source target ∈ all) (hoperand : operand.type = source)
    (hfixes : operand.FixesConstants) (hmem : (cast source target).overload ∈ overloads)
    (hsource' : source' ∈ castTypes)
    (hwinner : (scan binds true inWindow 0 overloads .start
      (castCall operand target positions)).1.winner.bind (overloads[·]?) =
        some (cast source' target).overload) :
    ((operandParameter source').matchArgument true false binds operand).1 = .exact := by
  subst hoperand
  obtain ⟨hsource, htarget, -⟩ := cast_mem_all_iff.mp hcast
  have hargs := fixesConstants_castCall hfixes target positions
  have hnot := winner_not_outranked hargs hwinner hmem rfl fun hvariadic => by cases hvariadic
  rw [score_cast hfixes htarget positions (matchArgument_self hsource binds)
    ArgumentMatch.noConfusion] at hnot
  cases hm : ((operandParameter source').matchArgument true false binds operand).1 with
  | exact => rfl
  | none =>
    have hlevel : ((cast source' target).overload.score binds true inWindow
        (castCall operand target positions)).1.level = .noMatch := by
      by_contra hmatch
      obtain ⟨hadmits, hshort⟩ := (Overload.score_ne_noMatch_iff ..).mp hmatch
      obtain ⟨e, he, htaken⟩ := hadmits 0 (operandParameter source') rfl
      cases he
      exact (Parameter.matchArgument_ne_none_iff ..).mpr ⟨htaken, hshort 0 _ _ rfl rfl⟩ hm
    refine absurd ⟨?_, fun hle => absurd hle ?_⟩ hnot
    · cases inWindow <;> decide
    · rw [hlevel]
      cases inWindow <;> decide
  | coerced distance isNull =>
    have hpos := cost_pos hsource' hsource hm
    rw [score_cast hfixes htarget positions hm ArgumentMatch.noConfusion] at hnot
    exact absurd (outranks_coerced hpos isNull inWindow) hnot

/-- A cast of an operand to another type always resolves, to a cast of the operand or to null. -/
theorem resolve_cast (settings : Settings) (hname : Text.lowerAscii name = "cast")
    (hcast : cast source target ∈ all) (hoperand : operand.type = source) (hne : source ≠ target)
    (hfixes : operand.FixesConstants)
    (hallowed : (!c.allowNonDeterministic && operand.isNonDeterministic) = false) (span : Span)
    (positions : List Span) :
    catalog.resolve settings name span (castCall operand target positions) c =
      (.ok ((castOrNull settings.scales target operand).finish settings c.table), c) := by
  subst hoperand
  obtain ⟨hsource, htarget, -⟩ := cast_mem_all_iff.mp hcast
  have hplain : ∀ type ∈ castTypes, type.isNull = false := by decide
  have hdefined : operand.isUndefined = false := isUndefined_of_mem_castTypes _ hsource
  have hcall := isCastCall_of_name hname operand target positions
  have helision : elision name (castCall operand target positions) c =
      (.ok (false, castCall operand target positions), c) := by
    rw [elision, if_pos hcall, ← elision_castCall hne hdefined, elision,
      if_pos (isCastCall_castCall ..)]
  obtain ⟨overloads, source', hfound, hmem, hwins, hwinner⟩ :=
    exists_cast_wins hcast rfl hfixes c.table c.inWindow positions
  have hsource' : source' ∈ castTypes := (cast_mem_all_iff.mp hwins).1
  have hexact := exact_of_cast_wins hcast rfl hfixes hmem hsource' hwinner
  have hkeeps := rewriteArgument_of_exact hsource' hsource hfixes hexact c.table
  have hfound' : catalog.overloads? name = some overloads := by
    rw [catalog.overloads?_congr (hname.trans lowerAscii_cast.symm), hfound]
  rw [Catalog.resolve_of_elision hfound' rfl helision, Catalog.resolveRanked_apply, hcall]
  simp only [snd_scan (fixesConstants_castCall hfixes target positions), hwinner]
  exact take_castCall settings source' htarget hkeeps hdefined (hplain _ hsource) hallowed name span

end Builtin
end SqlResolution
