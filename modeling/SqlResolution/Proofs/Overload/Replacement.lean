import SqlResolution.Proofs.Evaluator.Replacement
import SqlResolution.Proofs.Overload.Typing

/-!
# Preparing a call with another argument

An overload prepares the arguments of a call each on its own. So with another evaluator at a place
where neither is rewritten nor typed, the arguments are prepared as before, and that one stays.
-/
namespace SqlResolution

open Steps

variable {args args' : Args} {i j : Nat} {arg r : Evaluator} {c c' : Context}

theorem assignArgument_set (h : j ≠ i) {type : ColumnType}
    (hassign : assignArgument args j type c = (.ok args', c')) :
    assignArgument (args.set i r) j type c = (.ok (args'.set i r), c') := by
  rw [assignArgument_apply] at hassign ⊢
  rw [Args.get?_set_of_ne h]
  cases hget : args.get? j with
  | none =>
    rw [hget] at hassign
    cases hassign
    rfl
  | some e =>
    rw [hget] at hassign
    dsimp only at hassign ⊢
    rcases hresult : e.assignType c.table type with error | ⟨e', b⟩
    · rw [hresult] at hassign
      cases hassign
    · rw [hresult] at hassign
      cases hassign
      dsimp only
      rw [Args.set_comm h]

theorem firstVariableInTail?_set {s : Signature} (h : i < s.fixedCount) :
    firstVariableInTail? s (args.set i r) = firstVariableInTail? s args := by
  unfold firstVariableInTail?
  rw [Args.size_set]
  split
  · refine List.find?_congr fun j hj => ?_
    rw [List.range_eq_range', List.drop_range', List.mem_range'_1] at hj
    rw [Args.get?_set_of_ne (by omega)]
  · rfl

namespace Overload

variable {o : Overload} {name : String} {places : List Nat} {p : Parameter}

/-- The type that a variable takes does not depend on what the argument at a place is. -/
def TypesTail (o : Overload) (i : Nat) : Prop :=
  ∀ j (args : Args) r, o.factory.tailType? j (args.set i r) = o.factory.tailType? j args

theorem variableType_set (htail : o.TypesTail i) (j : Nat) :
    o.variableType name j (args.set i r) = o.variableType name j args := by
  unfold variableType
  rw [htail]
  rfl

theorem assignTypes_set (htail : o.TypesTail i) (hplace : i ∉ places)
    (hassign : o.assignTypes name places args c = (.ok args', c')) :
    o.assignTypes name places (args.set i r) c = (.ok (args'.set i r), c') := by
  induction places generalizing args c with
  | nil =>
    cases hassign
    rfl
  | cons j places ih =>
    obtain ⟨hne, hrest⟩ := not_or.mp fun h => hplace (List.mem_cons.mpr h)
    obtain ⟨type, args₁, c₁, htype, hhead, hlast⟩ := assignTypes_cons hassign
    have hlift : (liftM (o.variableType name j (args.set i r)) : Resolution ColumnType) c =
        (.ok type, c) := by rw [variableType_set htail, htype, liftM_apply]
    rw [assignTypes, bind_of_ok hlift, bind_of_ok (assignArgument_set (Ne.symm hne) hhead)]
    exact ih hrest hlast

/-- Rewriting the arguments of parameters from place `k` on leaves one that is in its form. -/
theorem rewriteAll_set {binds : BindTable} {k : Nat} {ps : List Parameter}
    (hget : args.get? i = some arg)
    (hkeeps : ∀ j p, ps[j]? = some p → k + j = i → ∀ position,
      rewriteArgument binds p.tag arg position = .ok arg ∧
        rewriteArgument binds p.tag r position = .ok r)
    (hrewrite : rewriteAll binds k ps args = .ok args') :
    rewriteAll binds k ps (args.set i r) = .ok (args'.set i r) ∧ args'.get? i = some arg := by
  induction ps generalizing k args with
  | nil =>
    cases hrewrite
    exact ⟨rfl, hget⟩
  | cons p ps ih =>
    have hrest : ∀ j q, ps[j]? = some q → k + 1 + j = i → ∀ position,
        rewriteArgument binds q.tag arg position = .ok arg ∧
          rewriteArgument binds q.tag r position = .ok r := by
      intro j q hq hj
      exact hkeeps (j + 1) q hq (by omega)
    rw [rewriteAll, Args.mapAt] at hrewrite ⊢
    by_cases hk : k = i
    · subst hk
      obtain ⟨harg, hr⟩ := hkeeps 0 p rfl rfl (args.position k)
      have hposition : (args.set k r).position k = args.position k := rfl
      rw [Args.get?_set_self hget]
      simp only [hget, harg] at hrewrite
      rw [Args.set_eq_self hget] at hrewrite
      simp only [hposition, hr, Args.set_set]
      exact ih hget hrest hrewrite
    · rw [Args.get?_set_of_ne hk]
      cases hgetk : args.get? k with
      | none =>
        simp only [hgetk] at hrewrite ⊢
        exact ih hget hrest hrewrite
      | some e =>
        have hposition : (args.set i r).position k = args.position k := rfl
        simp only [hgetk, hposition] at hrewrite ⊢
        rcases hresult : rewriteArgument binds p.tag e (args.position k) with error | e'
        · rw [hresult] at hrewrite
          cases hrewrite
        · rw [hresult] at hrewrite
          dsimp only at hrewrite ⊢
          rw [Args.set_comm hk]
          exact ih ((Args.get?_set_of_ne (Ne.symm hk)).trans hget) hrest hrewrite

/-- Where all arguments have types, they are only rewritten. -/
theorem adjust_nil (hvariable : firstVariableInTail? o.signature args = none) (c : Context) :
    o.adjust name [] args c = (rewriteAll c.table 0 o.signature.parameters args, c) := by
  unfold adjust
  rw [hvariable]
  dsimp only
  rw [assignTypes, bind_of_ok (pure_apply args c), bind_of_ok (get_apply c), liftM_apply]

/-- Another evaluator at a place that is neither typed nor rewritten. -/
theorem adjust_set (htail : o.TypesTail i) (hp : o.signature.parameters[i]? = some p)
    (harg : args.get? i = some arg) (hplace : i ∉ places) (hsorted : places.Pairwise (· < ·))
    (hadjust : o.adjust name places args c = (.ok args', c'))
    (hkeeps : ∀ position, rewriteArgument c'.table p.tag arg position = .ok arg ∧
      rewriteArgument c'.table p.tag r position = .ok r) :
    o.adjust name places (args.set i r) c = (.ok (args'.set i r), c') ∧
      args'.get? i = some arg := by
  obtain ⟨hfixed, -⟩ := List.getElem?_eq_some_iff.mp hp
  obtain ⟨typed, htypes, hrewrite⟩ := adjust_ok hadjust
  have hvariable : firstVariableInTail? o.signature args = none := by
    unfold adjust at hadjust
    cases hfound : firstVariableInTail? o.signature args with
    | none => rfl
    | some j =>
      rw [hfound] at hadjust
      cases hadjust
  have htyped : typed.get? i = some arg :=
    ((assignTypes_spec htypes hsorted).1 i hplace).trans harg
  obtain ⟨hrewritten, hkept⟩ := rewriteAll_set (r := r) htyped
    (fun j q hq hj => by
      rw [Nat.zero_add] at hj
      subst hj
      rw [hp] at hq
      cases hq
      exact hkeeps) hrewrite
  refine ⟨?_, hkept⟩
  unfold adjust
  rw [firstVariableInTail?_set hfixed, hvariable]
  dsimp only
  rw [bind_of_ok (assignTypes_set htail hplace htypes), bind_of_ok (get_apply c'), liftM_apply,
    hrewritten]

end Overload

end SqlResolution
