import SqlResolution.Proofs.Overload.Acceptance

/-!
# Preparing one argument

A variable that is given a type stays a variable, and a numbered one keeps the type that the bind
table has for it. An argument that is brought into the form of its parameter is evaluated, replaced
by a constant, written as text or kept, and taken by the parameter as before.
-/
namespace SqlResolution

namespace BindTable

theorem slotType?_define_of_ne {i j : Nat} (h : j ≠ i) (b : BindTable) (type : ColumnType) :
    (b.define i type).slotType? j = b.slotType? j := by
  unfold define slotType?
  split
  · rfl
  · rw [slot?_setSlot_of_ne h]

end BindTable

namespace Evaluator

/-- The numbered variable that an evaluator links. -/
def slot? : Evaluator → Option Nat
  | slotLink slot _ => some slot
  | memo _ inner => inner.slot?
  | _ => none

/-- Only variables are given a type. A numbered one keeps the type that the table has for it. -/
theorem assignType_spec {binds binds' : BindTable} {type : ColumnType} {e e' : Evaluator}
    (h : e.assignType binds type = .ok (e', binds')) :
    e.isConstant = false ∧ e'.isConstant = false ∧
      e'.type = (e.slot?.bind binds.slotType?).getD type ∧
      ∀ slot, binds'.slotType? slot =
        if e.slot? = some slot then some e'.type else binds.slotType? slot := by
  replace h := assigned_of_assignType h
  induction h with
  | slot slot _ =>
    refine ⟨rfl, rfl, rfl, ?_⟩
    intro other
    by_cases hslot : slot = other
    · subst hslot
      simp [slot?, Evaluator.type, BindTable.slotType?_define_self]
    · simp [slot?, hslot, BindTable.slotType?_define_of_ne (Ne.symm hslot)]
  | named => exact ⟨rfl, rfl, rfl, fun _ => rfl⟩
  | memo _ _ ih => exact ih

theorem isConstant_of_slot? {slot : Nat} :
    (e : Evaluator) → e.slot? = some slot → e.isConstant = false
  | slotLink _ _, _ => rfl
  | memo _ inner, h => by
    have hinner := isConstant_of_slot? inner h
    exact hinner
  | constant _ _, h | typeName _, h | column _ _ _, h | namedLink _ _, h | adapt _ _ _ _, h
  | scalar _ _, h | concat _ _, h | member _ _ _, h | cast _ _ _, h | cursor _, h
  | count _, h | total _ _ _, h | rowNumber _, h | rank, h | runningAverage _ _ _, h
  | randomInt _, h | randomDouble _, h | now _, h | custom _ _ _, h => by cases h

theorem Evolves.slot?_eq {e e' : Evaluator} (h : e.Evolves e') : e'.slot? = e.slot? := by
  by_cases hconstant : e.isConstant = true
  · have hnone : ∀ f : Evaluator, f.isConstant = true → f.slot? = none := by
      intro f hf
      cases hslot : f.slot? with
      | none => rfl
      | some slot =>
        rw [isConstant_of_slot? f hslot] at hf
        cases hf
    have hconstant' : e'.isConstant = true := by
      rw [isConstant, h.traits]
      exact hconstant
    rw [hnone e hconstant, hnone e' hconstant']
  · rw [h.eq_of_variable (by simpa using hconstant)]

end Evaluator

/-- The forms into which an argument is brought for a parameter of a tag. -/
inductive Rewritten (binds : BindTable) (target : TypeTag) (e : Evaluator) : Evaluator → Prop
  /-- A constant DOUBLE that is null is a null of the integers that are asked for. -/
  | nullInteger (isDouble : e.type.tag = .double) (constant : e.isConstant = true)
      (isNull : (e.evalConstant binds).1.isNull = true) (asked : target = .long ∨ target = .int) :
      Rewritten binds target e (.nullOf (.of target))
  /-- Any other constant DOUBLE has been evaluated. -/
  | evaluated (isDouble : e.type.tag = .double) (constant : e.isConstant = true) :
      Rewritten binds target e (e.evalConstant binds).2
  /-- A constant without text is a null of the instants that are asked for. -/
  | nullInstant (isString : e.type.tag.isString = true) (constant : e.isConstant = true)
      (noText : (e.evalConstant binds).1.asStr? = none) :
      Rewritten binds target e (.nullOf (.of target))
  /-- Constant text is read as an instant. -/
  | instant {text : String} {v : Value} (isString : e.type.tag.isString = true)
      (constant : e.isConstant = true) (hasText : (e.evalConstant binds).1.asStr? = some text) :
      Rewritten binds target e (.constant (.of target) v)
  | uuidText (asked : target = .string) (isUuid : e.type.tag = .uuid) :
      Rewritten binds target e (.adapt .uuidToStr e.type .string e)
  | intervalText (asked : target = .string) (isInterval : e.type.tag = .interval) :
      Rewritten binds target e (.adapt .intervalToStr e.type .string e)
  | kept : Rewritten binds target e e

theorem rewritten_of_rewriteArgument {binds : BindTable} {target : TypeTag} {e e' : Evaluator}
    {position : Span} (h : rewriteArgument binds target e position = .ok e') :
    Rewritten binds target e e' := by
  unfold rewriteArgument at h
  dsimp only at h
  split at h
  · rename_i hdouble
    rw [Bool.and_eq_true, beq_iff_eq] at hdouble
    obtain ⟨isDouble, constant⟩ := hdouble
    split at h
    · rename_i hlong
      rw [Bool.and_eq_true, beq_iff_eq] at hlong
      obtain ⟨isNull, rfl⟩ := hlong
      cases h
      exact .nullInteger isDouble constant isNull (.inl rfl)
    · split at h
      · rename_i hint
        rw [Bool.and_eq_true, beq_iff_eq] at hint
        obtain ⟨isNull, rfl⟩ := hint
        cases h
        exact .nullInteger isDouble constant isNull (.inr rfl)
      · cases h
        exact .evaluated isDouble constant
  · split at h
    · rename_i hstring
      obtain ⟨isString, constant⟩ := Bool.and_eq_true_iff.mp hstring
      split at h
      · unfold readConstantInstant at h
        split at h
        · rename_i noText
          cases h
          exact .nullInstant isString constant noText
        · rename_i text hasText
          dsimp only at h
          split at h
          · cases h
            exact .instant isString constant hasText
          · cases h
      · cases h
        exact .kept
    · split at h
      · rename_i huuid
        rw [Bool.and_eq_true, beq_iff_eq, beq_iff_eq] at huuid
        cases h
        exact .uuidText huuid.1 huuid.2
      · split at h
        · rename_i hinterval
          rw [Bool.and_eq_true, beq_iff_eq, beq_iff_eq] at hinterval
          cases h
          exact .intervalText hinterval.1 hinterval.2
        · cases h
          exact .kept

namespace Parameter

variable {p : Parameter} {charFitsString isCastTarget : Bool} {e e' : Evaluator}

/-- Whether a parameter takes a variable of a type. -/
def takes (p : Parameter) (charFitsString isCastTarget : Bool) (type : ColumnType) : Bool :=
  p.admits charFitsString isCastTarget (.slotLink 0 type)

theorem admits_of_variable (hvariable : e.isConstant = false) (p : Parameter)
    (charFitsString isCastTarget : Bool) :
    p.admits charFitsString isCastTarget e = p.takes charFitsString isCastTarget e.type := by
  have hlink : (Evaluator.slotLink 0 e.type).isConstant = false := rfl
  have htype : (Evaluator.slotLink 0 e.type).type = e.type := rfl
  unfold takes admits matchesExactly takesCharAsString Evaluator.isUndefined
  simp only [hvariable, hlink, htype, Bool.and_false, Bool.false_and]

theorem constant_of_admits (hadmits : p.admits charFitsString isCastTarget e = true)
    (hconstant : p.constant = true) : e.isConstant = true := by
  cases hvariable : e.isConstant with
  | true => rfl
  | false => simp [admits, hconstant, hvariable] at hadmits

theorem isArray_of_admits (hadmits : p.admits charFitsString isCastTarget e = true) :
    p.isArray = e.type.isArray := by
  by_cases harray : p.isArray = e.type.isArray
  · exact harray
  · simp [admits, harray] at hadmits

/-- A parameter takes what has its own tag. -/
theorem admits_of_tag_eq (htag : e.type.tag = p.tag) (harray : p.isArray = false)
    (hconstant : p.constant = true → e.isConstant = true) :
    p.admits charFitsString isCastTarget e = true := by
  have hisArray : e.type.isArray = false := by
    rw [ColumnType.isArray, htag, tag, harray]
    exact harray
  have hguard : (p.constant && !e.isConstant) = false := by
    cases hp : p.constant with
    | false => rfl
    | true => simp [hconstant hp]
  unfold admits matchesExactly
  simp [hguard, harray, hisArray, htag]

/-- A parameter that takes a variable without a type takes one of its own type. -/
theorem takes_type (hadmits : p.admits charFitsString isCastTarget e = true)
    (hvariable : e.isConstant = false) (hundefined : e.isUndefined = true) :
    p.takes charFitsString isCastTarget p.type = true := by
  have harray : p.isArray = false := by
    rw [isArray_of_admits hadmits, ColumnType.isArray, eq_of_beq hundefined]
    rfl
  have htag : p.type.tag = p.tag := by
    simp [tag, harray]
  refine admits_of_tag_eq htag harray ?_
  intro hconstant
  rw [constant_of_admits hadmits hconstant] at hvariable
  cases hvariable

/-- Where a cast's target is a variable without a type, its parameter has none either. -/
theorem tag_of_admits_target (hadmits : p.admits charFitsString true e = true)
    (hvariable : e.isConstant = false) (hundefined : e.isUndefined = true) :
    p.tag = .undefined := by
  have htag : e.type.tag = .undefined := eq_of_beq hundefined
  have hexact : p.matchesExactly charFitsString e = true := by
    unfold admits at hadmits
    simp [htag, ColumnType.isArray] at hadmits
    exact hadmits.2.2
  simp [matchesExactly, takesCharAsString, htag, hvariable, ColumnType.isGeohash,
    TypeTag.isGeohash] at hexact
  exact hexact

theorem isArray_of_tag {tag : TypeTag} (htag : e.type.tag = tag) (hne : tag ≠ .array) :
    e.type.isArray = false := by
  rw [ColumnType.isArray, htag]
  exact beq_eq_false_iff_ne.mpr hne

/-- An argument that is brought into the form of its parameter is still taken. -/
theorem admits_rewriteArgument {binds : BindTable} {position : Span}
    (hadmits : p.admits charFitsString isCastTarget e = true)
    (hrewrite : rewriteArgument binds p.tag e position = .ok e') :
    p.admits charFitsString isCastTarget e' = true := by
  have hevaluated : p.admits charFitsString isCastTarget (e.evalConstant binds).2 = true :=
    (admits_congr (Evaluator.type_eval binds .empty e) (Evaluator.traits_eval binds .empty e) p
      charFitsString isCastTarget).trans hadmits
  have harray := isArray_of_admits hadmits
  have hconstant := constant_of_admits hadmits
  have hflat : e.type.tag ≠ .array → p.isArray = false := fun hne =>
    harray.trans (isArray_of_tag rfl hne)
  have hofString : e.type.tag.isString = true → e.type.tag ≠ .array := by
    intro hstring htag
    rw [htag] at hstring
    cases hstring
  cases rewritten_of_rewriteArgument hrewrite with
  | nullInteger isDouble =>
    exact admits_of_tag_eq rfl (hflat (by rw [isDouble]; decide)) fun _ => rfl
  | evaluated => exact hevaluated
  | nullInstant isString => exact admits_of_tag_eq rfl (hflat (hofString isString)) fun _ => rfl
  | instant isString => exact admits_of_tag_eq rfl (hflat (hofString isString)) fun _ => rfl
  | uuidText asked isUuid =>
    exact admits_of_tag_eq asked.symm (hflat (by rw [isUuid]; decide)) hconstant
  | intervalText asked isInterval =>
    exact admits_of_tag_eq asked.symm (hflat (by rw [isInterval]; decide)) hconstant
  | kept => exact hadmits

/-- A STRING that takes text takes what is written as text for it. -/
theorem admits_of_adapted (htarget : isCastTarget = true → p.tag ≠ .string)
    (hstring : p.tag = .string) (hsource : e.type.tag = .uuid ∨ e.type.tag = .interval)
    (hadmits : p.admits charFitsString isCastTarget e' = true) (htype : e'.type = .string)
    (hvariable : e'.isConstant = false) : p.admits charFitsString isCastTarget e = true := by
  have hisTarget : isCastTarget = false := by
    cases isCastTarget with
    | false => rfl
    | true => exact absurd hstring (htarget rfl)
  have hconstant : p.constant = false := by
    cases hp : p.constant with
    | false => rfl
    | true =>
      rw [constant_of_admits hadmits hp] at hvariable
      cases hvariable
  have harray : p.isArray = false := by
    rw [isArray_of_admits hadmits, htype]
    rfl
  have hdistances : TypeTag.uuid.distance .string ≠ noCoercion ∧
      TypeTag.interval.distance .string ≠ noCoercion := by decide
  have hflat : e.type.isArray = false := by
    obtain htag | htag := hsource
    · exact isArray_of_tag htag (by decide)
    · exact isArray_of_tag htag (by decide)
  unfold admits
  obtain htag | htag := hsource
  · simp [hconstant, harray, hflat, hstring, htag, hisTarget, hdistances.1]
  · simp [hconstant, harray, hflat, hstring, htag, hisTarget, hdistances.2]

/-- Where a variable is taken after it was brought into the form of its parameter, it was taken
before. -/
theorem admits_of_rewriteArgument {binds : BindTable} {position : Span}
    (hvariable : e.isConstant = false) (htarget : isCastTarget = true → p.tag ≠ .string)
    (hrewrite : rewriteArgument binds p.tag e position = .ok e')
    (hadmits : p.admits charFitsString isCastTarget e' = true) :
    p.admits charFitsString isCastTarget e = true := by
  have hnever : e.isConstant ≠ true := by
    rw [hvariable]
    exact Bool.false_ne_true
  cases rewritten_of_rewriteArgument hrewrite with
  | nullInteger _ constant => exact absurd constant hnever
  | evaluated _ constant => exact absurd constant hnever
  | nullInstant _ constant => exact absurd constant hnever
  | instant _ constant => exact absurd constant hnever
  | uuidText asked isUuid =>
    exact admits_of_adapted htarget asked (.inl isUuid) hadmits rfl hvariable
  | intervalText asked isInterval =>
    exact admits_of_adapted htarget asked (.inr isInterval) hadmits rfl hvariable
  | kept => exact hadmits

end Parameter
end SqlResolution
