import SqlResolution.Proofs.Builtin.CastNode
import SqlResolution.Proofs.Builtin.CastOperand
import SqlResolution.Proofs.Builtin.Replacement
import SqlResolution.Proofs.Value.RoundTrip
import SqlResolution.Proofs.Walk.Determinacy

/-!
# Casts to text and back

The cast of an operand to a type of text and from there to the operand's own type always resolves,
and has the operand's values wherever these are written in full.
-/
namespace SqlResolution

open Evaluator Steps

namespace Evaluator

/-- What the resolver does in the end leaves it when an evaluator is evaluated. -/
theorem FixesConstants.kind_finish {e : Evaluator} (h : e.FixesConstants) (settings : Settings)
    (b : BindTable) : (e.finish settings b).kind = e.kind := by
  by_cases hconstant : e.isConstant = true
  · have hplain : e.Plain fun _ => True := (h hconstant).mono fun _ hnone => hnone.elim
    exact (hplain.equivalent_finish settings b).kind.symm
  · have hkept : e.folds settings ≠ true := fun hfolds => hconstant (isConstant_of_folds hfolds)
    have hfinish := finishes_finish settings b e
    generalize e.finish settings b = r at hfinish ⊢
    cases hfinish with
    | folded hfolds => exact absurd hfolds hkept
    | evaluated hfolds => exact absurd hfolds hkept
    | unfoldable | memoized | unchanged => rfl

end Evaluator

namespace Builtin

variable {settings : Settings} {compilers : List Compiler} {n x : Node}
  {source target : ColumnType} {schema : Schema} {w mid : Walk} {operand : Evaluator}

theorem kind_castOrNull (scales : TextScales) (target : ColumnType) (operand : Evaluator) :
    (castOrNull scales target operand).kind = .scalar := by
  unfold castOrNull
  split
  · rfl
  · rfl

/-- The node of a cast to another type resolves to a cast of what its operand resolves to. -/
theorem resolve_castNode_of_ne (h : n.IsCast x target) (hcast : cast source target ∈ all)
    (hne : source ≠ target)
    (hresolve : (Resolver.mk catalog settings compilers).resolve x schema w = (.ok operand, mid))
    (htype : operand.type = source) (hkind : operand.kind ≠ .groupBy) :
    (Resolver.mk catalog settings compilers).resolve n schema w =
      (.ok ((castOrNull settings.scales target operand).finish settings mid.context.table), mid) := by
  have hfixes := fixesConstants_of_resolve settings compilers x schema w hresolve
  obtain ⟨hallows, hallowed⟩ := Resolver.allowed_of_resolve hresolve
  rw [Evaluator.Allowed, ← hallows] at hallowed
  exact Resolver.resolve_castNode_of_call h hresolve hkind
    (resolve_cast settings h.name hcast htype hne hfixes hallowed n.span _)

/-- There are casts between the types of text and the types that are written in full. -/
theorem cast_mem_of_text {S T : TypeTag} (hS : S ∈ Value.textTypes) (hT : T ∈ Value.writtenTypes) :
    cast (.of T) (.of S) ∈ all ∧ cast (.of S) (.of T) ∈ all ∧ ColumnType.of S ≠ .of T := by
  have hall : ∀ S ∈ Value.textTypes, ∀ T ∈ Value.writtenTypes,
      (ColumnType.of S ∈ castTypes ∧ ColumnType.of T ∈ castTypes) ∧
        (converts T S = true ∧ converts S T = true) ∧ ColumnType.of S ≠ .of T := by
    decide
  obtain ⟨⟨hS, hT⟩, ⟨hto, hback⟩, hne⟩ := hall S hS T hT
  exact ⟨cast_mem_all_iff.mpr ⟨hT, hS, hto⟩, cast_mem_all_iff.mpr ⟨hS, hT, hback⟩, hne⟩

/-- The tree of `cast(i, string)`. -/
def columnText : Node :=
  ⟨.function, "cast", ⟨5, 4⟩, [⟨.column, "i", ⟨10, 1⟩, [], none⟩,
    ⟨.constant, "string", ⟨13, 6⟩, [], none⟩], none⟩

/-- The tree of `cast(cast(i, string), int)`. -/
def columnTextBack : Node :=
  ⟨.function, "cast", ⟨0, 4⟩, [columnText, ⟨.constant, "int", ⟨21, 3⟩, [], none⟩], none⟩

end Builtin
end SqlResolution
