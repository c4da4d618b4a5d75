import SqlResolution.Proofs.Builtin.Constants
import SqlResolution.Proofs.Builtin.Folding
import SqlResolution.Proofs.Builtin.TypeSoundness

/-!
# Constancy of the builtins

The traits of what a tree over the builtins resolves to tell the truth about its value: a constant
has one value, and a runtime constant has one value under each table.
-/
namespace SqlResolution.Builtin

open Evaluator

variable {settings : Settings} {compilers : List Compiler} {root : Node} {schema : Schema}
  {w after : Walk} {e : Evaluator}

/-- What a tree over the builtins resolves to has a value that depends neither on the row nor on the
table where it is constant, and not on the row where it is a runtime constant. In both cases it stays
as it is when it is evaluated. -/
theorem constancy_of_resolve
    (h : (Resolver.mk catalog settings compilers).resolve root schema w = (.ok e, after)) :
    (e.isConstant = true → ∃ v, ∀ b row, e.eval b row = (v, e)) ∧
      (e.traits.runtimeConstant = true → ∀ b, ∃ v, ∀ row, e.eval b row = (v, e)) := by
  have hplain : e.PlainWhere Traits.isConstantOrRuntimeConstant fun _ => True :=
    plainWhere_of_resolve marks_fixed (fun _ _ => trivial) h
  constructor
  · intro hconstant
    have hfixed := hplain (marks_fixed.of_constant hconstant)
    refine ⟨e.value default .empty, fun b row => ?_⟩
    rw [hfixed.eval_eq, hfixed.value_of_isConstant b default row .empty hconstant]
  · intro hruntime b
    have hmark : e.traits.isConstantOrRuntimeConstant = true := by
      rw [Traits.isConstantOrRuntimeConstant, hruntime, Bool.or_true]
    have hfixed := hplain hmark
    refine ⟨e.value b .empty, fun row => ?_⟩
    rw [hfixed.eval_eq, hfixed.value_of_mark marks_fixed row .empty (fun _ _ _ => rfl) hmark]

/-- The tree of `$1 + 2`. -/
def variableSumTree : Node :=
  ⟨.operation, "+", ⟨3, 1⟩, [⟨.bindVariable, "$1", ⟨0, 2⟩, [], none⟩,
    ⟨.constant, "2", ⟨5, 1⟩, [], none⟩], none⟩

/-- A LONG variable and a constant are added as LONG. -/
theorem resolve_variableSumTree {c : Catalog}
    (hname : c.overloads? "+" = some (additions.map overload)) :
    (Resolver.mk c .default []).resolve variableSumTree .empty (.idle firstSlot) =
      (.ok (.scalar (.arithmetic .add .long) [.slotLink 0 .long, .constant .int (.int 2)]),
        .idle firstSlot) := by
  have hcall : c.resolve .default "+" ⟨3, 1⟩
      ⟨[.slotLink 0 .long, .constant .int (.int 2)], [⟨0, 2⟩, ⟨5, 1⟩]⟩ firstSlot =
        (.ok (.scalar (.arithmetic .add .long) [.slotLink 0 .long, .constant .int (.int 2)]),
          firstSlot) := by
    rw [Catalog.resolve_eq hname]
    rfl
  exact Resolver.resolve_of_args (List.cons_ne_nil _ _) rfl rfl hcall

/-- Where nothing is folded the sum `1 + 2` is a constant, and the sum `$1 + 2` is a runtime
constant. -/
theorem constancy_of_resolve_sums :
    let settings : Settings := { Settings.default with foldConstants := false }
    let e : Evaluator :=
      .scalar (.arithmetic .add .int) [.constant .int (.int 1), .constant .int (.int 2)]
    let e' : Evaluator := .scalar (.arithmetic .add .long) [.slotLink 0 .long, .constant .int (.int 2)]
    (Resolver.mk catalog settings []).resolve sumTree .empty (.idle (.fresh 0)) =
        (.ok e, .idle (.fresh 0)) ∧
      e.isConstant = true ∧ (∃ v, ∀ b row, e.eval b row = (v, e)) ∧
      (Resolver.mk catalog .default []).resolve variableSumTree .empty (.idle firstSlot) =
        (.ok e', .idle firstSlot) ∧
      e'.traits.runtimeConstant = true ∧ ∀ b, ∃ v, ∀ row, e'.eval b row = (v, e') := by
  intro settings e e'
  have hsum : (Resolver.mk catalog settings []).resolve sumTree .empty (.idle (.fresh 0)) =
      (.ok e, .idle (.fresh 0)) := resolve_sumTree overloads?_plus false
  have hvariable := resolve_variableSumTree overloads?_plus
  exact ⟨hsum, rfl, (constancy_of_resolve hsum).1 rfl, hvariable, rfl,
    (constancy_of_resolve hvariable).2 rfl⟩

end SqlResolution.Builtin
