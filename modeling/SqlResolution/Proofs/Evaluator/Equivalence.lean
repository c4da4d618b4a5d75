import SqlResolution.Proofs.Evaluator.Plain
import SqlResolution.Proofs.Overload.Aligned

/-!
# Evaluators that mean the same

Plain evaluators are equivalent when they have the same type, traits that resolution looks at, and
values. Functions of equivalent arguments are equivalent, and folding a constant leaves an equivalent
one.
-/
namespace SqlResolution.Evaluator

variable {b : BindTable} {first : Bool} {row : Row} {rows : List Row} {e e' e'' : Evaluator}

/-- The value after each of the rows that an evaluator is fed. -/
def fedValues? (b : BindTable) (first : Bool) (rows : List Row) (e : Evaluator) :
    Option (List Value) := (e.feed? b first rows).map (·.1)

theorem fedValues?_cons (b : BindTable) (first : Bool) (row : Row) (rows : List Row)
    (e : Evaluator) :
    e.fedValues? b first (row :: rows) = (e.accumulate? b first row).bind fun fed =>
      ((fed.eval b row).2.fedValues? b false rows).map ((fed.eval b row).1 :: ·) := by
  simp only [fedValues?, feed?]
  cases e.accumulate? b first row with
  | none => rfl
  | some fed =>
    simp only [Option.bind_eq_bind, Option.bind_some]
    cases (fed.eval b row).2.feed? b false rows with
    | none => rfl
    | some fed => rfl

/-- Plain evaluators that show the same to resolution and have the same values. -/
structure Equivalent (e e' : Evaluator) : Prop where
  plain : e.Plain fun _ => True
  plain' : e'.Plain fun _ => True
  type : e.type = e'.type
  kind : e.kind = e'.kind
  isConstant : e.isConstant = e'.isConstant
  isRuntimeConstant :
    e.traits.isConstantOrRuntimeConstant = e'.traits.isConstantOrRuntimeConstant
  typeConstant : e.traits.typeConstant = e'.traits.typeConstant
  /-- Only links have no type, and these are the same. -/
  eq_of_isUndefined : e.isUndefined = true → e = e'
  value : ∀ b row, e.value b row = e'.value b row
  fedValues? : ∀ b first rows, e.fedValues? b first rows = e'.fedValues? b first rows

namespace Equivalent

theorem refl (h : e.Plain fun _ => True) : Equivalent e e :=
  ⟨h, h, rfl, rfl, rfl, rfl, rfl, fun _ => rfl, fun _ _ => rfl, fun _ _ _ => rfl⟩

theorem symm (h : Equivalent e e') : Equivalent e' e where
  plain := h.plain'
  plain' := h.plain
  type := h.type.symm
  kind := h.kind.symm
  isConstant := h.isConstant.symm
  isRuntimeConstant := h.isRuntimeConstant.symm
  typeConstant := h.typeConstant.symm
  eq_of_isUndefined hundefined := by
    rw [isUndefined, ← h.type] at hundefined
    exact (h.eq_of_isUndefined hundefined).symm
  value b row := (h.value b row).symm
  fedValues? b first rows := (h.fedValues? b first rows).symm

theorem trans (h : Equivalent e e') (h' : Equivalent e' e'') : Equivalent e e'' where
  plain := h.plain
  plain' := h'.plain'
  type := h.type.trans h'.type
  kind := h.kind.trans h'.kind
  isConstant := h.isConstant.trans h'.isConstant
  isRuntimeConstant := h.isRuntimeConstant.trans h'.isRuntimeConstant
  typeConstant := h.typeConstant.trans h'.typeConstant
  eq_of_isUndefined hundefined := by
    have heq := h.eq_of_isUndefined hundefined
    subst heq
    exact h'.eq_of_isUndefined hundefined
  value b row := (h.value b row).trans (h'.value b row)
  fedValues? b first rows := (h.fedValues? b first rows).trans (h'.fedValues? b first rows)

end Equivalent

theorem Plain.not_accumulates {P : Variable → Prop} (h : e.Plain P) (hkind : e.kind = .scalar) :
    e.accumulates = false := by
  cases e
  case memo => exact h.elim
  case custom => exact h.elim
  all_goals first | rfl | cases hkind

theorem fedValues?_of_not_accumulates (h : e.accumulates = false) (b : BindTable) (first : Bool)
    (rows : List Row) : e.fedValues? b first rows = if rows.isEmpty then some [] else none := by
  cases rows with
  | nil => rfl
  | cons row rows =>
    have hnone : e.accumulate? b first row = none := by
      rw [← Option.not_isSome_iff_eq_none, isSome_accumulate?, h]
      exact Bool.false_ne_true
    rw [fedValues?_cons, hnone]
    rfl

/-- Evaluators that are evaluated for each row are fed nothing, and need not be compared in that. -/
theorem Equivalent.of_scalar (hplain : e.Plain fun _ => True) (hplain' : e'.Plain fun _ => True)
    (hkind : e.kind = .scalar) (hkind' : e'.kind = .scalar) (htype : e.type = e'.type)
    (hdefined : e.isUndefined = false) (hconstant : e.isConstant = e'.isConstant)
    (hruntime : e.traits.isConstantOrRuntimeConstant = e'.traits.isConstantOrRuntimeConstant)
    (htypeConstant : e.traits.typeConstant = e'.traits.typeConstant)
    (hvalue : ∀ b row, e.value b row = e'.value b row) : Equivalent e e' where
  plain := hplain
  plain' := hplain'
  type := htype
  kind := hkind.trans hkind'.symm
  isConstant := hconstant
  isRuntimeConstant := hruntime
  typeConstant := htypeConstant
  eq_of_isUndefined hundefined := by
    rw [hdefined] at hundefined
    cases hundefined
  value := hvalue
  fedValues? b first rows := by
    rw [fedValues?_of_not_accumulates (hplain.not_accumulates hkind),
      fedValues?_of_not_accumulates (hplain'.not_accumulates hkind')]

/-- Folding leaves a constant that means the same. -/
theorem Plain.equivalent_fold (h : e.Plain fun _ => True) (hconstant : e.isConstant = true)
    (b : BindTable) : Equivalent e (e.fold b) := by
  rw [h.fold_eq]
  split
  · rename_i hfolds
    obtain ⟨hfoldable, -⟩ := Bool.and_eq_true_iff.mp hfolds
    simp only [isFoldable, Bool.and_eq_true, Bool.not_eq_true'] at hfoldable
    obtain ⟨⟨-, htypeConstant⟩, htype⟩ := hfoldable
    have hdefined : e.isUndefined = false := by
      rw [isUndefined, ColumnType.isUndefined, beq_eq_false_iff_ne]
      intro hundefined
      simp [hundefined, TypeTag.isFoldable] at htype
    refine .of_scalar h (by simp [Plain]) (h.kind_of_isConstant hconstant) rfl rfl hdefined ?_ ?_ ?_ ?_
    · exact hconstant
    · have htrait : e.traits.constant = true := hconstant
      rw [Traits.isConstantOrRuntimeConstant, htrait]
      rfl
    · exact htypeConstant
    · intro b' row
      rw [value_constant]
      exact h.value_of_isConstant b' b row .empty hconstant
  · exact .refl h

theorem Plain.equivalent_finish (h : e.Plain fun _ => True) (settings : Settings) (b : BindTable) :
    Equivalent e (e.finish settings b) := by
  rw [h.finish_eq]
  split
  · rename_i hfolds
    exact h.equivalent_fold (Bool.and_eq_true_iff.mp hfolds).2 b
  · exact .refl h

namespace Equivalent

theorem fold (h : Equivalent e e') (hconstant : e.isConstant = true) (b b' : BindTable) :
    Equivalent (e.fold b) (e'.fold b') := by
  have hconstant' : e'.isConstant = true := h.isConstant.symm.trans hconstant
  exact ((h.plain.equivalent_fold hconstant b).symm.trans h).trans
    (h.plain'.equivalent_fold hconstant' b')

/-- Whether either is folded makes no difference. -/
theorem finish (h : Equivalent e e') (settings settings' : Settings) (b : BindTable) :
    Equivalent (e.finish settings b) (e'.finish settings' b) :=
  ((h.plain.equivalent_finish settings b).symm.trans h).trans
    (h.plain'.equivalent_finish settings' b)

/-- A function of one argument that passes on how constant it is. -/
theorem unary (h : Equivalent e e') {make : Evaluator → Evaluator} {type : ColumnType}
    (hplain : ∀ arg : Evaluator, arg.Plain (fun _ => True) → (make arg).Plain fun _ => True)
    (hkind : ∀ arg, (make arg).kind = .scalar) (htype : ∀ arg, (make arg).type = type)
    (hdefined : type.isUndefined = false)
    (htraits : ∀ arg, (make arg).traits.constant = arg.traits.constant ∧
      (make arg).traits.runtimeConstant = arg.traits.runtimeConstant ∧
      (make arg).traits.typeConstant = false)
    (hvalue : ∀ b row, (make e).value b row = (make e').value b row) :
    Equivalent (make e) (make e') := by
  have hconstant : e.traits.constant = e'.traits.constant := h.isConstant
  have hruntime := h.isRuntimeConstant
  obtain ⟨hmake, hmakeRuntime, hmakeType⟩ := htraits e
  obtain ⟨hmake', hmakeRuntime', hmakeType'⟩ := htraits e'
  unfold Traits.isConstantOrRuntimeConstant at hruntime
  refine .of_scalar (hplain e h.plain) (hplain e' h.plain') (hkind e) (hkind e') ?_ ?_ ?_ ?_ ?_ hvalue
  · rw [htype, htype]
  · rw [isUndefined, htype, hdefined]
  · rw [Evaluator.isConstant, Evaluator.isConstant, hmake, hmake', hconstant]
  · rw [Traits.isConstantOrRuntimeConstant, Traits.isConstantOrRuntimeConstant, hmake, hmake',
      hmakeRuntime, hmakeRuntime', hruntime]
  · rw [hmakeType, hmakeType']

theorem adapt (h : Equivalent e e') (adapter : Adapter) (source : ColumnType)
    {target : ColumnType} (hdefined : target.isUndefined = false) :
    Equivalent (.adapt adapter source target e) (.adapt adapter source target e') := by
  refine h.unary (fun arg harg => by simpa [Plain] using harg) (fun _ => rfl) (fun _ => rfl)
    hdefined (fun arg => by simp [traits, Traits.determinacy, Traits.none]) fun b row => ?_
  rw [value_adapt, value_adapt, h.value]

theorem cast (h : Equivalent e e') (scales : TextScales) {target : ColumnType}
    (hdefined : target.isUndefined = false) :
    Equivalent (.cast scales target e) (.cast scales target e') := by
  refine h.unary (fun arg harg => by simpa [Plain] using harg) (fun _ => rfl) (fun _ => rfl)
    hdefined (fun arg => by simp [traits, Traits.determinacy, Traits.none]) fun b row => ?_
  rw [value_cast, value_cast, h.value]

theorem member (h : Equivalent e e') (texts : List String) (holdsNull : Bool) :
    Equivalent (.member texts holdsNull e) (.member texts holdsNull e') := by
  have htype : ∀ arg, (Evaluator.member texts holdsNull arg).type = .boolean := fun _ => rfl
  refine h.unary (fun arg harg => by simpa [Plain] using harg) (fun _ => rfl) htype rfl
    (fun arg => by simp [traits, Traits.determinacy, Traits.none]) fun b row => ?_
  rw [value_member, value_member, h.value]

/-- A cast of a constant that is null is a null. -/
theorem nullOf_cast (hplain : e.Plain fun _ => True) (hconstant : e.isConstant = true)
    (hnull : ∀ b row, (e.value b row).isNull = true) (scales : TextScales) {target : ColumnType}
    (hdefined : target.isUndefined = false) :
    Equivalent (.nullOf target) (.cast scales target e) := by
  have htrait : e.traits.constant = true := hconstant
  refine .of_scalar (by simp [nullOf, Plain]) (by simpa [Plain] using hplain) rfl rfl rfl
    hdefined ?_ ?_ ?_ ?_
  · simp [nullOf, Evaluator.isConstant, traits, Traits.determinacy, htrait]
  · simp [nullOf, traits, Traits.determinacy, Traits.isConstantOrRuntimeConstant, htrait]
  · simp [nullOf, traits, Traits.determinacy, Traits.none]
  · intro b row
    rw [value_cast, Value.cast, if_pos (hnull b row), nullOf, value_constant]

end Equivalent

/-- A function is at least a runtime constant where it has arguments and all of them are. -/
theorem runtimeConstant_inherited (es : List Evaluator) :
    (Traits.inherited (traitsOf es)).isConstantOrRuntimeConstant =
      (!es.isEmpty && es.all fun e => e.traits.isConstantOrRuntimeConstant) := by
  rw [Traits.isConstantOrRuntimeConstant_inherited, traitsOf_eq_map, List.isEmpty_map,
    List.all_map]
  rfl

variable {es es' : List Evaluator} {i : Nat}

theorem plainAll_of_aligned (h : Aligned (fun _ => Equivalent) i es es') :
    PlainAll (fun _ => True) es ∧ PlainAll (fun _ => True) es' := by
  induction h with
  | nil => exact ⟨trivial, trivial⟩
  | cons head _ ih => exact ⟨⟨head.plain, ih.1⟩, head.plain', ih.2⟩

/-- What a function inherits from equivalent arguments. -/
theorem inherited_of_aligned (h : Aligned (fun _ => Equivalent) i es es') :
    (Traits.inherited (traitsOf es)).constant = (Traits.inherited (traitsOf es')).constant ∧
      (Traits.inherited (traitsOf es)).isConstantOrRuntimeConstant =
        (Traits.inherited (traitsOf es')).isConstantOrRuntimeConstant := by
  have hempty : es.isEmpty = es'.isEmpty := by
    cases h with
    | nil => rfl
    | cons => rfl
  have hconstants := h.map_eq fun _ _ _ related => related.isConstant
  have hruntime := h.map_eq (f := fun e => e.traits.isConstantOrRuntimeConstant)
    fun _ _ _ related => related.isRuntimeConstant
  have hall : ∀ f : Evaluator → Bool, es.map f = es'.map f → es.all f = es'.all f := by
    intro f hmap
    have hid : ∀ es : List Evaluator, es.all f = (es.map f).all id := by simp
    rw [hid es, hid es', hmap]
  rw [constant_inherited, constant_inherited, runtimeConstant_inherited,
    runtimeConstant_inherited, hempty, hall _ hconstants, hall _ hruntime]
  exact ⟨rfl, rfl⟩

namespace Equivalent

theorem scalar (h : Aligned (fun _ => Equivalent) i es es') (k : Kernel) :
    Equivalent (.scalar k es) (.scalar k es') := by
  obtain ⟨hplain, hplain'⟩ := plainAll_of_aligned h
  obtain ⟨hconstant, hruntime⟩ := inherited_of_aligned h
  refine .of_scalar (by simpa [Plain] using hplain) (by simpa [Plain] using hplain') rfl rfl rfl ?_
    ?_ ?_ ?_ ?_
  · cases k with
    | arithmetic op kind => cases kind <;> rfl
    | negate kind | magnitude kind => cases kind <;> rfl
    | _ => rfl
  · simpa only [Evaluator.isConstant, traits] using hconstant
  · simpa only [traits] using hruntime
  · simp only [traits, Traits.typeConstant_inherited]
  · intro b row
    have hvalues := h.map_eq fun _ _ _ related => related.value b row
    rw [value_scalar, value_scalar, hvalues]

theorem concat (h : Aligned (fun _ => Equivalent) i es es') (scales : TextScales) :
    Equivalent (.concat scales es) (.concat scales es') := by
  obtain ⟨hplain, hplain'⟩ := plainAll_of_aligned h
  obtain ⟨hconstant, hruntime⟩ := inherited_of_aligned h
  refine .of_scalar (by simpa [Plain] using hplain) (by simpa [Plain] using hplain') rfl rfl rfl rfl
    ?_ ?_ ?_ ?_
  · simpa only [Evaluator.isConstant, traits] using hconstant
  · simpa only [traits] using hruntime
  · simp only [traits, Traits.typeConstant_inherited]
  · intro b row
    have hvalues := h.map_eq fun _ _ _ related => related.value b row
    rw [value_concat, value_concat, hvalues]

theorem total (h : Equivalent e e') (which : Total) (sums : Sums) :
    Equivalent (.total which sums e) (.total which sums e') where
  plain := by simpa [Plain] using h.plain
  plain' := by simpa [Plain] using h.plain'
  type := rfl
  kind := rfl
  isConstant := rfl
  isRuntimeConstant := rfl
  typeConstant := rfl
  eq_of_isUndefined hundefined := by cases which <;> cases hundefined
  value b row := by simp only [Evaluator.value, eval]
  fedValues? b first rows := by
    induction rows generalizing first sums with
    | nil => rfl
    | cons row rows ih =>
      simp only [fedValues?_cons, accumulate?, h.plain.eval_eq, h.plain'.eval_eq, h.value,
        Option.bind_some, eval, ih]

theorem runningAverage (h : Equivalent e e') (sum : Float) (count : Nat) :
    Equivalent (.runningAverage sum count e) (.runningAverage sum count e') where
  plain := by simpa [Plain] using h.plain
  plain' := by simpa [Plain] using h.plain'
  type := rfl
  kind := rfl
  isConstant := rfl
  isRuntimeConstant := rfl
  typeConstant := rfl
  eq_of_isUndefined hundefined := by cases hundefined
  value b row := by simp only [Evaluator.value, eval]
  fedValues? b first rows := by
    induction rows generalizing first sum count with
    | nil => rfl
    | cons row rows ih =>
      simp only [fedValues?_cons, accumulate?, h.plain.eval_eq, h.plain'.eval_eq, h.value]
      split
      · simp only [Option.bind_some, eval, ih]
      · simp only [Option.bind_some, eval, ih]

end Equivalent
end SqlResolution.Evaluator
