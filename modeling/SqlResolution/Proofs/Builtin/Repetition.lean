import SqlResolution.Proofs.Builtin.Building
import SqlResolution.Proofs.Builtin.Congruence
import SqlResolution.Proofs.Overload.Repetition

/-!
# Calls of builtins that are repeated

The builtins are among the factories whose calls can be repeated: they read the values of variables
alone, and what they build is no link.
-/
namespace SqlResolution

open Steps

variable {b b' : BindTable}

theorem implicitCast_congr (h : b.SameValues b') : implicitCast b = implicitCast b' := by
  funext span e target
  rw [implicitCast, implicitCast, Evaluator.evalConstant_congr h]

namespace Builtin

theorem buildKernel_congr (h : b.SameValues b') : buildKernel b = buildKernel b' := by
  have hconvert : convertOperand b = convertOperand b' := by
    funext type e position
    rw [convertOperand, convertOperand, foldedImplicitCast, foldedImplicitCast,
      implicitCast_congr h, Evaluator.fold_congr h]
  have hconverts : ∀ type es, convertOperands b type es = convertOperands b' type es := by
    intro type es
    induction es with
    | nil => rfl
    | cons head es ih =>
      obtain ⟨e, position⟩ := head
      rw [convertOperands, convertOperands, hconvert, ih]
  funext k args
  simp only [buildKernel, hconverts]

theorem buildMember_congr (h : b.SameValues b') : buildMember b = buildMember b' := by
  funext position args
  have htexts : ∀ es, listTexts b position es = listTexts b' position es := fun es =>
    listTexts_congr (List.map_congr_left fun e _ => congrArg Prod.fst (e.eval_congr h .empty)) position
  simp only [buildMember, htexts]

/-- The builtins read of the bind table the values of variables alone. -/
theorem readsValues (settings : Settings) : catalog.ReadsValues settings := by
  intro name overloads hname o ho span args context table hvalues
  obtain ⟨builtin, -, rfl, -⟩ := exists_of_mem_overloads hname ho
  have hvalues' : (context.withTable table).table.SameValues context.table := by
    obtain htable | htable := context.table_withTable_or table
    · rw [htable]
      exact fun x => (hvalues x).symm
    · rw [htable]
      exact fun x => rfl
  refine congrArg (Except.map some) ?_
  cases builtin with
  | kernel k => exact congrFun (congrFun (buildKernel_congr hvalues') k) args
  | varcharLength => exact congrFun (congrFun (buildKernel_congr hvalues') .length) args
  | member => exact congrFun (congrFun (buildMember_congr hvalues') span) args
  | _ => rfl

theorem linked?_build {builtin : Builtin} {span : Span} {args : Args} {settings : Settings}
    {context : Context} {e : Evaluator} (h : builtin.build span args settings context = .ok e) :
    e.linked? = none := by
  cases makes_of_build h <;> rfl

/-- The builtins make up no links. -/
theorem makesUpNoLinks (settings : Settings) : catalog.MakesUpNoLinks settings := by
  intro name overloads hname o ho span args context e hbuild
  obtain ⟨builtin, -, rfl, -⟩ := exists_of_mem_overloads hname ho
  exact .inl (linked?_build (build_of_factory hbuild))

end Builtin
end SqlResolution
