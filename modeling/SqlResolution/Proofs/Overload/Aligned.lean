import SqlResolution.Proofs.Overload.Adjustment
import SqlResolution.Proofs.Overload.Run
import SqlResolution.Proofs.Steps.Relates

/-!
# Arguments that a call cannot tell apart

A call looks at its arguments only for their types, for what they tell about being constant, and for
the values of constants. Arguments that are alike in this lead to the same overload, or to the same
error, and are prepared alike for it.
-/
namespace SqlResolution

open Steps

/-- In related contexts, related evaluators show the same to the resolver, and stay related under
what the resolver does to an argument. -/
structure Uniform (S : Context → Context → Prop) (R : Evaluator → Evaluator → Prop) : Prop where
  type : ∀ {e e'}, R e e' → e.type = e'.type
  isConstant : ∀ {e e'}, R e e' → e.isConstant = e'.isConstant
  isRuntimeConstant : ∀ {e e'}, R e e' →
    e.traits.isConstantOrRuntimeConstant = e'.traits.isConstantOrRuntimeConstant
  typeConstant : ∀ {e e'}, R e e' → e.traits.typeConstant = e'.traits.typeConstant
  evalConstant : ∀ {c c' e e'}, S c c' → R e e' → e.isConstant = true →
    (e.evalConstant c.table).1 = (e'.evalConstant c'.table).1 ∧
      R (e.evalConstant c.table).2 (e'.evalConstant c'.table).2
  assignType : ∀ {c c' e e'}, S c c' → R e e' → e.isUndefined = true → ∀ type,
    Outcome (fun assigned assigned' => R assigned.1 assigned'.1 ∧
        S (c.withTable assigned.2) (c'.withTable assigned'.2))
      (e.assignType c.table type) (e'.assignType c'.table type)
  constant : ∀ {type : ColumnType} {v : Value}, type.isUndefined = false →
    v.conformsTo type = true → R (.constant type v) (.constant type v)
  adapt : ∀ {e e' adapter}, R e e' → adapter = .uuidToStr ∨ adapter = .intervalToStr →
    R (.adapt adapter e.type .string e) (.adapt adapter e'.type .string e')

/-- What holds of every argument at its place, from place `i` on. -/
inductive Aligned (R : Nat → Evaluator → Evaluator → Prop) :
    Nat → List Evaluator → List Evaluator → Prop
  | nil (i : Nat) : Aligned R i [] []
  | cons {i : Nat} {e e' : Evaluator} {es es' : List Evaluator} (head : R i e e')
      (tail : Aligned R (i + 1) es es') : Aligned R i (e :: es) (e' :: es')

/-- Arguments at the same positions that are related at each place. -/
structure Args.Aligned (R : Nat → Evaluator → Evaluator → Prop) (args args' : Args) : Prop where
  positions : args.positions = args'.positions
  evaluators : SqlResolution.Aligned R 0 args.evaluators args'.evaluators

namespace Aligned

variable {R : Nat → Evaluator → Evaluator → Prop} {i : Nat} {es es' : List Evaluator}

theorem length_eq (h : Aligned R i es es') : es.length = es'.length := by
  induction h with
  | nil => rfl
  | cons _ _ ih => rw [List.length_cons, List.length_cons, ih]

theorem getElem? (h : Aligned R i es es') (k : Nat) : Option.Rel (R (i + k)) es[k]? es'[k]? := by
  induction h generalizing k with
  | nil => exact .none
  | @cons i _ _ _ _ head _ ih =>
    cases k with
    | zero => exact .some head
    | succ k =>
      rw [← Nat.add_assoc, Nat.add_right_comm]
      exact ih k

theorem set (h : Aligned R i es es') {k : Nat} {e e' : Evaluator} (hk : R (i + k) e e') :
    Aligned R i (es.set k e) (es'.set k e') := by
  induction h generalizing k with
  | nil => exact .nil _
  | @cons i _ _ _ _ head tail ih =>
    cases k with
    | zero => exact .cons hk tail
    | succ k =>
      rw [← Nat.add_assoc, Nat.add_right_comm] at hk
      exact .cons head (ih hk)

theorem mono {R' : Nat → Evaluator → Evaluator → Prop} (h : Aligned R i es es')
    (hR : ∀ k e e', R k e e' → R' k e e') : Aligned R' i es es' := by
  induction h with
  | nil => exact .nil _
  | cons head _ ih => exact .cons (hR _ _ _ head) ih

/-- What is the same of related evaluators is the same of aligned lists. -/
theorem map_eq {β : Type} {f : Evaluator → β} (h : Aligned R i es es')
    (hf : ∀ k e e', R k e e' → f e = f e') : es.map f = es'.map f := by
  induction h with
  | nil => rfl
  | cons head _ ih => rw [List.map_cons, List.map_cons, hf _ _ _ head, ih]

end Aligned

namespace Args.Aligned

variable {R : Nat → Evaluator → Evaluator → Prop} {args args' : Args}

theorem get? (h : args.Aligned R args') (i : Nat) :
    Option.Rel (R i) (args.get? i) (args'.get? i) := by
  have hrel := h.evaluators.getElem? i
  rwa [Nat.zero_add] at hrel

theorem size_eq (h : args.Aligned R args') : args.size = args'.size := h.evaluators.length_eq

theorem isEmpty_eq (h : args.Aligned R args') : args.isEmpty = args'.isEmpty := by
  have hsize : args.evaluators.length = args'.evaluators.length := h.size_eq
  rw [isEmpty, isEmpty, Bool.eq_iff_iff, List.isEmpty_iff_length_eq_zero,
    List.isEmpty_iff_length_eq_zero, hsize]

theorem set (h : args.Aligned R args') {i : Nat} {e e' : Evaluator} (hi : R i e e') :
    (args.set i e).Aligned R (args'.set i e') :=
  ⟨h.positions, h.evaluators.set (by rwa [Nat.zero_add])⟩

theorem position_eq (h : args.Aligned R args') (i : Nat) : args.position i = args'.position i := by
  rw [position, position, h.positions]

/-- What is the same of related evaluators is the same at each place. -/
theorem any_eq (h : args.Aligned R args') {f : Evaluator → Bool}
    (hf : ∀ k e e', R k e e' → f e = f e') (i : Nat) :
    (args.get? i).any f = (args'.get? i).any f := by
  have hrel := h.get? i
  generalize args.get? i = e, args'.get? i = e' at hrel
  cases hrel with
  | none => rfl
  | some related => exact hf _ _ _ related

end Args.Aligned

/-- The same answer, beside things that are related. -/
def AnswersAlike {α β γ : Type} (R : β → γ → Prop) (x : α × β) (y : α × γ) : Prop :=
  x.1 = y.1 ∧ R x.2 y.2

theorem AnswersAlike.ite {α β γ : Type} {R : β → γ → Prop} {x x' : α × β} {y y' : α × γ} (p : Bool)
    (h : AnswersAlike R x y) (h' : AnswersAlike R x' y') :
    AnswersAlike R (if p then x else x') (if p then y else y') := by
  cases p
  · exact h'
  · exact h

section Matching

variable {S : Context → Context → Prop} {c c' : Context}

theorem Parameter.matchesExactly_uniform {R : Evaluator → Evaluator → Prop} (hR : Uniform S R)
    {e e' : Evaluator} (h : R e e') (p : Parameter) (charFitsString : Bool) :
    p.matchesExactly charFitsString e = p.matchesExactly charFitsString e' := by
  unfold matchesExactly takesCharAsString
  rw [hR.type h, hR.isConstant h, hR.typeConstant h]

theorem Parameter.coercionDistance_uniform {R : Evaluator → Evaluator → Prop} (hR : Uniform S R)
    (hS : S c c') {e e' : Evaluator} (h : R e e') (p : Parameter) (charFitsString : Bool) :
    AnswersAlike R (p.coercionDistance charFitsString c.table e)
      (p.coercionDistance charFitsString c'.table e') := by
  unfold coercionDistance
  simp only [← hR.type h, ← hR.isConstant h]
  refine .ite _ ?_ (.ite _ ⟨rfl, h⟩ ⟨rfl, h⟩)
  cases hconstant : e.isConstant with
  | false => exact ⟨rfl, h⟩
  | true =>
    obtain ⟨hvalue, hnext⟩ := hR.evalConstant hS h hconstant
    simp only [if_true, ← hvalue]
    exact ⟨rfl, hnext⟩

theorem Parameter.matchArgument_uniform {R : Evaluator → Evaluator → Prop} (hR : Uniform S R)
    (hS : S c c') {e e' : Evaluator} (h : R e e') (p : Parameter)
    (charFitsString isCastTarget : Bool) :
    AnswersAlike R (p.matchArgument charFitsString isCastTarget c.table e)
      (p.matchArgument charFitsString isCastTarget c'.table e') := by
  obtain ⟨hdistance, hcoerced⟩ := p.coercionDistance_uniform hR hS h charFitsString
  unfold matchArgument
  simp only [← hR.type h, ← hR.isConstant h, ← p.matchesExactly_uniform hR h, ← hdistance,
    Evaluator.isUndefined, ← hR.type hcoerced]
  refine .ite _ ⟨rfl, h⟩ (.ite _ ⟨rfl, h⟩ (.ite _ ⟨rfl, h⟩ (.ite _ ⟨rfl, h⟩ ?_)))
  exact .ite _ ⟨rfl, h⟩ (.ite _ ⟨rfl, h⟩ (.ite _ ⟨rfl, hcoerced⟩ ⟨rfl, hcoerced⟩))

variable {R : Nat → Evaluator → Evaluator → Prop} (hR : ∀ i, Uniform S (R i)) (hS : S c c')
include hR hS

theorem Overload.matchAll_aligned (charFitsString isCast : Bool) {i : Nat} {es es' : List Evaluator}
    (h : Aligned R i es es') (ps : List Parameter) (s : CandidateScore) :
    AnswersAlike (Aligned R i) (matchAll charFitsString isCast c.table i ps es s)
      (matchAll charFitsString isCast c'.table i ps es' s) := by
  induction ps generalizing i es es' s with
  | nil => exact ⟨rfl, h⟩
  | cons p ps ih =>
    cases h with
    | nil => exact ⟨rfl, .nil i⟩
    | cons head tail =>
      obtain ⟨hmatch, hnext⟩ :=
        p.matchArgument_uniform (hR i) hS head charFitsString (isCast && i == 1)
      simp only [matchAll, ← hmatch]
      split
      · exact ⟨rfl, .cons hnext tail⟩
      · obtain ⟨hrest, htail⟩ := ih tail ⟨s.level.mergeExact, s.score⟩
        exact ⟨hrest, .cons hnext htail⟩
      · rename_i distance isNull _
        obtain ⟨hrest, htail⟩ := ih tail ⟨s.level.mergeCoerced isNull, s.score + distance⟩
        exact ⟨hrest, .cons hnext htail⟩

theorem Overload.score_aligned (o : Overload) (isCast inWindow : Bool) {args args' : Args}
    (h : args.Aligned R args') :
    AnswersAlike (Args.Aligned R) (o.score c.table isCast inWindow args)
      (o.score c'.table isCast inWindow args') := by
  obtain ⟨hresult, hnext⟩ := matchAll_aligned hR hS o.factory.charFitsString isCast h.evaluators
    o.signature.parameters ⟨if o.signature.fixedCount == 0 then .exact else .noMatch, 0⟩
  unfold score
  dsimp only
  rw [hresult]
  exact ⟨rfl, h.positions, hnext⟩

/-- The scan of all overloads comes to the same end for aligned arguments. -/
theorem scan_aligned (isCast inWindow : Bool) (i : Nat) (os : List Overload) (t : CandidateTracker)
    {args args' : Args} (h : args.Aligned R args') :
    AnswersAlike (Args.Aligned R) (scan c.table isCast inWindow i os t args)
      (scan c'.table isCast inWindow i os t args') := by
  induction os generalizing i t args args' with
  | nil => exact ⟨rfl, h⟩
  | cons o os ih =>
    obtain ⟨hscore, hnext⟩ := o.score_aligned hR hS isCast inWindow h
    simp only [scan, ← h.size_eq, ← hscore]
    exact .ite _ (.ite _ ⟨rfl, hnext⟩ (ih _ _ hnext)) (ih _ _ h)

end Matching

section Errors

variable {S : Context → Context → Prop} {R : Nat → Evaluator → Evaluator → Prop}
  (hR : ∀ i, Uniform S (R i)) {args args' : Args}
include hR

theorem Args.Aligned.types_eq (h : args.Aligned R args') : args.types = args'.types :=
  h.evaluators.map_eq fun k _ _ related => (hR k).type related

theorem noMatchingOverload_aligned (c : Catalog) (overloads : List Overload) (name : String)
    (span : Span) (h : args.Aligned R args') :
    noMatchingOverload c overloads name span args =
      noMatchingOverload c overloads name span args' :=
  noMatchingOverload_congr h.positions
    (h.evaluators.map_eq fun k _ _ related =>
      Prod.ext ((hR k).type related) ((hR k).isConstant related)) c overloads name span

theorem unknownFunction_aligned (name : String) (span : Span) (h : args.Aligned R args') :
    unknownFunction name span args = unknownFunction name span args' := by
  simp only [unknownFunction, h.types_eq hR]

theorem undefinedPlaces_aligned (h : args.Aligned R args') :
    undefinedPlaces args = undefinedPlaces args' := by
  have hany : ∀ i, (args.get? i).any Evaluator.isUndefined =
      (args'.get? i).any Evaluator.isUndefined := by
    refine h.any_eq ?_
    intro k e e' related
    rw [Evaluator.isUndefined, Evaluator.isUndefined, (hR k).type related]
  unfold undefinedPlaces
  simp only [h.size_eq, hany]

theorem isCastCall_aligned (name : String) (h : args.Aligned R args') :
    isCastCall name args = isCastCall name args' := by
  unfold isCastCall
  rw [h.size_eq, h.any_eq (fun k _ _ related => (hR k).isConstant related) 1]

theorem firstVariableInTail?_aligned (s : Signature) (h : args.Aligned R args') :
    firstVariableInTail? s args = firstVariableInTail? s args' := by
  have hany : ∀ i, ((args.get? i).any fun e => !e.traits.isConstantOrRuntimeConstant) =
      (args'.get? i).any fun e => !e.traits.isConstantOrRuntimeConstant := by
    refine h.any_eq ?_
    intro k e e' related
    rw [(hR k).isRuntimeConstant related]
  unfold firstVariableInTail?
  simp only [h.size_eq, hany]

end Errors
end SqlResolution
