import SqlResolution.Proofs.Overload.Diagnosis

/-!
# Arguments without a type of their own

A NULL costs nothing as any type, and a variable without a type is always possible. But whether an
argument is an array is compared before its type is looked at. So such an argument is refused by the
parameters that take arrays, and elsewhere another argument is to blame.
-/
namespace SqlResolution

/-- A NULL, or a variable that has no type yet. -/
def Evaluator.isUntyped (e : Evaluator) : Bool := e.type.isNull || e.isUndefined

namespace Parameter

/-- Whether a parameter takes arrays, of values or of texts. -/
def takesArrays (p : Parameter) : Bool := p.isArray || p.tag == .arrayString

variable {p : Parameter} {e : Evaluator}

/-- An untyped argument can become of any type. -/
theorem isPossible_of_isUntyped (h : e.isUntyped = true) (p : Parameter) :
    (e.type.tag.distance p.tag != noCoercion || e.isUndefined) = true := by
  by_cases hundefined : e.isUndefined = true
  · simp [hundefined]
  · have hnull : e.type.tag = .null := by
      simpa [Evaluator.isUntyped, hundefined, ColumnType.isNull] using h
    rw [hnull, TypeTag.distance_null]
    rfl

/-- A parameter that asks for no constant takes an untyped argument unless it takes arrays. -/
theorem admits_of_isUntyped (h : e.isUntyped = true) (hconstant : p.constant = false)
    (charFitsString : Bool) : p.admits charFitsString false e = !p.takesArrays := by
  have htag : e.type.tag = .null ∨ e.type.tag = .undefined := by
    simpa [Evaluator.isUntyped, Evaluator.isUndefined, ColumnType.isNull, ColumnType.isUndefined]
      using h
  have hflat : e.type.isArray = false ∧ (e.type.tag == .arrayString) = false ∧
      (e.type.tag == .char) = false := by
    rw [ColumnType.isArray]
    obtain htag | htag := htag <;> rw [htag] <;> decide
  obtain ⟨harray, hstrings, hchar⟩ := hflat
  have hpossible := isPossible_of_isUntyped h p
  unfold admits takesArrays
  simp only [hconstant, harray, hstrings, hchar, hpossible, Bool.false_and, Bool.false_eq_true,
    if_false, Bool.bne_false, Bool.or_self]
  cases p.isArray || p.tag == .arrayString <;> simp

/-- An untyped argument is refused by the parameters that take arrays, and by no others. -/
theorem matchArgument_of_isUntyped (h : e.isUntyped = true) (hconstant : p.constant = false)
    (charFitsString : Bool) (binds : BindTable) :
    (p.matchArgument charFitsString false binds e).1 = .none ↔ p.takesArrays = true := by
  have hshort : p.isTooShortFor binds e = false := by
    refine isTooShortFor_of_ne_string fun hstring => ?_
    simp [Evaluator.isUntyped, Evaluator.isUndefined, ColumnType.isNull, ColumnType.isUndefined,
      hstring] at h
  have hmatch := matchArgument_ne_none_iff p charFitsString false binds e
  rw [admits_of_isUntyped h hconstant, hshort] at hmatch
  by_cases harrays : p.takesArrays = true
  · simpa [harrays] using hmatch
  · simpa [harrays] using hmatch

end Parameter

namespace Overload

variable {o : Overload} {binds : BindTable} {isCast inWindow : Bool} {args : Args} {i : Nat}
  {p : Parameter} {e : Evaluator}

/-- No argument at a place that its parameter takes. -/
def FailsAt (o : Overload) (binds : BindTable) (isCast : Bool) (args : Args) (i : Nat) : Prop :=
  i < o.signature.fixedCount ∧ ∀ e, args.get? i = some e → o.Refuses binds isCast i e

/-- An overload matches no call that fails at one of its places. -/
theorem score_eq_noMatch_iff :
    (o.score binds isCast inWindow args).1.level = .noMatch ↔
      ∃ i, o.FailsAt binds isCast args i := by
  rw [← not_iff_not, ← ne_eq, score_ne_noMatch_iff_isSome, rawScore?, matchAll_isSome_iff]
  simp only [Nat.zero_add]
  constructor
  · rintro h ⟨i, hi, hfails⟩
    obtain ⟨e, he, hmatch⟩ := h i _ (List.getElem?_eq_getElem hi)
    obtain ⟨p, hp, hnone⟩ := hfails e he
    rw [List.getElem?_eq_getElem hi] at hp
    cases hp
    exact hmatch hnone
  · intro h i p hp
    obtain ⟨hi, -⟩ := List.getElem?_eq_some_iff.mp hp
    by_contra hfails
    refine h ⟨i, hi, fun e he => ⟨p, hp, ?_⟩⟩
    by_contra hmatch
    exact hfails ⟨e, he, hmatch⟩

/-- An untyped argument is never why an overload does not match, unless its parameter takes arrays:
then it is enough. -/
theorem score_untyped_eq_noMatch_iff (hp : o.signature.parameters[i]? = some p)
    (hconstant : p.constant = false) (he : args.get? i = some e) (huntyped : e.isUntyped = true)
    (htarget : (isCast && i == 1) = false) :
    (o.score binds isCast inWindow args).1.level = .noMatch ↔
      p.takesArrays = true ∨ ∃ j, j ≠ i ∧ o.FailsAt binds isCast args j := by
  have hself : o.FailsAt binds isCast args i ↔ p.takesArrays = true := by
    rw [← Parameter.matchArgument_of_isUntyped huntyped hconstant o.factory.charFitsString binds]
    constructor
    · rintro ⟨-, hfails⟩
      obtain ⟨q, hq, hnone⟩ := hfails e he
      rw [hp] at hq
      cases hq
      rwa [htarget] at hnone
    · intro hnone
      refine ⟨(List.getElem?_eq_some_iff.mp hp).1, fun d hd => ⟨p, hp, ?_⟩⟩
      rw [he] at hd
      cases hd
      rwa [htarget]
  rw [score_eq_noMatch_iff, ← hself]
  constructor
  · rintro ⟨j, hfails⟩
    by_cases hj : j = i
    · exact .inl (hj ▸ hfails)
    · exact .inr ⟨j, hj, hfails⟩
  · rintro (hfails | ⟨j, -, hfails⟩)
    · exact ⟨i, hfails⟩
    · exact ⟨j, hfails⟩

/-- `f(int, boolean)` over a NULL and a UUID fails on the UUID alone. -/
theorem score_untyped_int_boolean :
    let o : Overload := ⟨⟨"f", [⟨.int, false⟩, ⟨.boolean, false⟩], none⟩, default⟩
    let args : Args := ⟨[.untypedNull, .column 0 .uuid "u"], [.none, .none]⟩
    o.signature.parameters[0]? = some ⟨.int, false⟩ ∧ args.get? 0 = some .untypedNull ∧
      Evaluator.untypedNull.isUntyped = true ∧ (false && (0 : Nat) == 1) = false ∧
        ((o.score .empty false false args).1.level = .noMatch ↔
          (⟨.int, false⟩ : Parameter).takesArrays = true ∨
            ∃ j, j ≠ 0 ∧ o.FailsAt .empty false args j) :=
  ⟨rfl, rfl, rfl, rfl, score_untyped_eq_noMatch_iff rfl rfl rfl rfl rfl⟩

/-- `f(double[])` takes neither a NULL nor a variable without a type, though it has no other
place. -/
theorem not_untyped_fits_doubleArray :
    let o : Overload := ⟨⟨"f", [⟨.array .double 1, false⟩], none⟩, default⟩
    ∀ e ∈ [Evaluator.untypedNull, .slotLink 0 .undefined],
      e.isUntyped = true ∧ (o.score .empty false false ⟨[e], [.none]⟩).1.level = .noMatch ∧
        ∀ j, j ≠ 0 → ¬o.FailsAt .empty false ⟨[e], [.none]⟩ j := by
  intro o e he
  have hother : ∀ j, j ≠ 0 → ¬o.FailsAt .empty false ⟨[e], [.none]⟩ j :=
    fun j hj hfails => hj (Nat.lt_one_iff.mp hfails.1)
  obtain rfl | he := List.mem_cons.mp he
  · exact ⟨rfl, rfl, hother⟩
  · obtain rfl := List.mem_singleton.mp he
    exact ⟨rfl, rfl, hother⟩

end Overload
end SqlResolution
