import SqlResolution.Proofs.Builtin.Casting
import SqlResolution.Proofs.Walk.Reentrancy

/-!
# Nodes of casts

A node of a cast has the node of an operand and a node that writes a type. It is resolved by a call of
`cast` on the operand's evaluator and the type.
-/
namespace SqlResolution

open Steps

/-- A call of `cast` on the node of an operand and a node that writes a type. -/
structure Node.IsCast (n operand : Node) (target : ColumnType) : Prop where
  name : Text.lowerAscii n.token = "cast"
  args : ∃ type, n.args = [operand, type] ∧ type.args = [] ∧ type.kind = .constant ∧
    Literal.parse type.span type.token = .ok (.typeName target)

namespace Resolver

variable {r : Resolver} {n operand : Node} {target : ColumnType}

/-- The call of a cast's node on its operand's evaluator, which may be no aggregate. -/
def castOf (r : Resolver) (n operand : Node) (target : ColumnType) (positions : List Span)
    (e : Evaluator) : Walking Evaluator :=
  if e.kind == .groupBy then throw (.aggregateAsArgument operand.span)
  else .ofResolution
    (r.catalog.resolve r.settings n.token n.span (Builtin.castCall e target positions))

/-- A cast's node is resolved by the call of `cast` on what its operand's node resolves to. -/
theorem resolve_castNode (r : Resolver) (h : n.IsCast operand target) (schema : Schema) :
    r.resolve n schema =
      r.resolve operand schema >>= r.castOf n operand target (n.args.map (·.span)) := by
  obtain ⟨type, hargs, hleaf, hkind, hliteral⟩ := h.args
  have hne : n.args ≠ [] := by
    rw [hargs]
    exact List.cons_ne_nil _ _
  funext w
  rw [resolve, resolve, walk_query_eq, walk_query_eq, r.resolveTree_of_args _ _ hne]
  rcases hoperand : r.resolveTree (r.queryOf r.compilers) schema operand w.effects with
    ⟨error | e, s⟩
  · have hes : r.resolveTrees (r.queryOf r.compilers) schema n.args w.effects =
        (.error error, s) := by
      rw [hargs, resolveTrees, bind_of_error hoperand]
    rw [bind_apply, Walking.ofRecursive_apply, Walking.ofRecursive_apply, bind_of_error hes,
      hoperand]
  · have htype : r.resolveTree (r.queryOf r.compilers) schema type s =
        (.ok (.typeName target), s) := by
      rw [r.resolveTree_of_leaf _ _ hleaf, leafOf, hkind]
      dsimp only
      rw [hliteral]
      rfl
    have hes : r.resolveTrees (r.queryOf r.compilers) schema n.args w.effects =
        (.ok [e, .typeName target], s) := by
      rw [hargs, resolveTrees, bind_of_ok hoperand, resolveTrees, bind_apply, bind_of_ok htype]
      rfl
    rw [bind_apply, Walking.ofRecursive_apply, Walking.ofRecursive_apply, bind_of_ok hes, hoperand]
    dsimp only
    have hlast : (Args.mk [e, .typeName target] (n.args.map (·.span))).lastAggregate? =
        if e.kind == .groupBy then some operand.span else none := by
      rw [hargs]
      cases hkind : e.kind == .groupBy <;>
        simp [Args.lastAggregate?, Evaluator.kind, hkind]
    unfold callOf castOf
    simp only [hlast]
    cases e.kind == .groupBy with
    | true => rfl
    | false => rfl

variable {schema : Schema} {w mid after : Walk} {e built : Evaluator}

/-- A cast's node resolves to what the call makes of its operand. -/
theorem resolve_castNode_of_call {c : Context} (h : n.IsCast operand target)
    (hoperand : r.resolve operand schema w = (.ok e, mid)) (hkind : e.kind ≠ .groupBy)
    (hcall : r.catalog.resolve r.settings n.token n.span
      (Builtin.castCall e target (n.args.map (·.span))) mid.context = (.ok built, c)) :
    r.resolve n schema w = (.ok built, { mid with context := c }) := by
  rw [r.resolve_castNode h schema, bind_of_ok hoperand, castOf, if_neg (by simpa using hkind),
    Walking.ofResolution, hcall]

/-- A cast's node that resolves is a call on what its operand resolved to, which is no aggregate. -/
theorem exists_of_castNode (h : n.IsCast operand target)
    (hresolve : r.resolve n schema w = (.ok built, after)) :
    ∃ e mid, r.resolve operand schema w = (.ok e, mid) ∧ e.kind ≠ .groupBy ∧
      r.catalog.resolve r.settings n.token n.span
        (Builtin.castCall e target (n.args.map (·.span))) mid.context =
          (.ok built, after.context) := by
  rw [r.resolve_castNode h schema] at hresolve
  obtain ⟨e, mid, hoperand, hcall⟩ := exists_of_bind_ok hresolve
  unfold castOf at hcall
  split at hcall
  · cases hcall
  · rename_i hkind
    refine ⟨e, mid, hoperand, by simpa using hkind, ?_⟩
    rcases hrun : r.catalog.resolve r.settings n.token n.span
      (Builtin.castCall e target (n.args.map (·.span))) mid.context with ⟨result, c⟩
    rw [Walking.ofResolution, hrun] at hcall
    cases hcall
    exact hrun

end Resolver
end SqlResolution
