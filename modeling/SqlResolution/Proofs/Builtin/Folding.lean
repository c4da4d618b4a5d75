import SqlResolution.Proofs.Builtin.Congruence
import SqlResolution.Proofs.Evaluator.Equivalence

/-!
# Constant folding

A constant that is folded shows the same to every function that it becomes an argument of. So a tree
over the builtins means the same with folding and without.
-/
namespace SqlResolution

open Evaluator Steps

/-- A call does alike with arguments that mean the same. -/
theorem uniform_equivalent : Uniform (· = ·) Equivalent where
  type h := h.type
  isConstant h := h.isConstant
  isRuntimeConstant h := h.isRuntimeConstant
  typeConstant h := h.typeConstant
  evalConstant := by
    rintro c _ e e' rfl h -
    rw [evalConstant, evalConstant, h.plain.eval_eq, h.plain'.eval_eq]
    exact ⟨h.value _ _, h⟩
  assignType := by
    rintro c _ e e' rfl h hundefined type
    have hsame := h.eq_of_isUndefined hundefined
    subst hsame
    refine .refl ?_
    rintro ⟨assigned, b⟩ hassign
    refine ⟨.refl ?_, rfl⟩
    obtain ⟨declared, x, hx, rfl⟩ | hrefuses := h.plain.link_or_cannotAssign
    · rw [assignType_link] at hassign
      cases hassign
      exact plain_link_iff.mpr trivial
    · rw [hrefuses] at hassign
      cases hassign
  constant _ _ := .refl (by simp [Plain])
  adapt := by
    intro e e' adapter h _
    rw [← h.type]
    exact h.adapt adapter e.type rfl

namespace Builtin

/-- A cast of null means the same whether or not it is seen that it is one. -/
theorem equivalent_castOrNull {e : Evaluator} (hplain : e.Plain fun _ => True)
    (scales : TextScales) {target : ColumnType} (hdefined : target.isUndefined = false) :
    Equivalent (castOrNull scales target e) (.cast scales target e) := by
  unfold castOrNull
  split
  · rename_i hnull
    cases e
    case constant type v =>
      refine .nullOf_cast hplain rfl (fun b row => ?_) scales hdefined
      rw [value_constant]
      exact hnull
    all_goals cases hnull
  · exact (Equivalent.refl hplain).cast scales hdefined

/-- The builtins keep what evaluators mean. -/
theorem congruence_equivalent : Congruence Equivalent where
  type h := h.type
  isConstant h := h.isConstant
  value_of_isConstant := by
    intro e e' b b' h hconstant
    rw [h.value b .empty]
    exact h.plain'.value_of_isConstant b b' .empty .empty (h.isConstant.symm.trans hconstant)
  refl hplain := .refl (hplain.mono fun _ hx => hx.elim)
  fold b b' h hconstant := h.fold hconstant b b'
  adapt hdefined h := h.adapt _ _ hdefined
  scalar k h := .scalar h k
  concat scales h := .concat h scales
  member texts holdsNull h := h.member texts holdsNull
  castOrNull := by
    intro e e' scales target hdefined h
    have hleft := equivalent_castOrNull h.plain scales hdefined
    have hright := equivalent_castOrNull h.plain' scales hdefined
    exact (hleft.trans (h.cast scales hdefined)).trans hright.symm
  total which h := h.total which .zero
  runningAverage h := h.runningAverage 0 0

end Builtin

/-- Evaluators of the same type that are both constant or both not, and that yield the same values on
all rows and after all rows that they are fed. -/
structure Evaluator.MeansSame (e e' : Evaluator) : Prop where
  type : e.type = e'.type
  isConstant : e.isConstant = e'.isConstant
  evalRows : ∀ b rows, (e.evalRows b rows).1 = (e'.evalRows b rows).1
  fedValues? : ∀ b first rows, e.fedValues? b first rows = e'.fedValues? b first rows

theorem Evaluator.Equivalent.meansSame {e e' : Evaluator} (h : Equivalent e e') :
    e.MeansSame e' where
  type := h.type
  isConstant := h.isConstant
  evalRows b rows := by
    have hvalues : rows.map (fun row => e.value b row) = rows.map fun row => e'.value b row :=
      List.map_congr_left fun row _ => h.value b row
    rw [h.plain.evalRows_eq, h.plain'.evalRows_eq, hvalues]
  fedValues? := h.fedValues?

/-- Resolvers over the builtins that write numbers alike do alike, whatever they fold. -/
theorem Resolver.nodesAlike_folding {settings settings' : Settings}
    (hscales : settings.scales = settings'.scales) (compilers : List Compiler) :
    NodesAlike (· = ·) (fun n => n.isRandom = false) (fun _ _ => Equivalent)
      ⟨Builtin.catalog, settings, compilers⟩ ⟨Builtin.catalog, settings', compilers⟩ where
  pushTimestampRequired required hsame := congrArg (·.pushTimestampRequired required) hsame
  popTimestampRequired hsame := congrArg (·.popTimestampRequired) hsame
  kind h := h.kind
  literal hliteral := .refl hliteral.plain
  column _ := .refl (by simp [Plain])
  link := by
    rintro schema n c _ - - - rfl
    refine .refl fun e he => .refl ?_
    obtain ⟨x, -, rfl⟩ := Link.ofNode_ok he
    exact plain_link_iff.mpr trivial
  cursor _ _ _ := .refl (by simp [Plain])
  call := by
    intro schema n es es' hn hcall haligned
    have hargs := haligned.aligned (R := fun _ => Equivalent) (i := 0) fun _ _ _ _ _ h => h
    refine Builtin.catalog.relates_resolve (fun _ => uniform_equivalent)
      (fun _ _ hsame => congrArg (·.inWindow) hsame) (fun _ _ h => h) ?_ ⟨rfl, hargs⟩
    intro overloads hname o ho
    obtain ⟨b, hall, rfl, hcalls⟩ := Builtin.exists_of_call hcall hname ho
    refine b.buildsAlike (fun _ _ hsame => congrArg (·.allowNonDeterministic) hsame) ?_
    rintro args args' hargs c _ rfl
    have hvalues := hargs.evaluators.map_eq fun _ _ _ related => related.value c.table .empty
    have hbuild := Builtin.outcome_build Builtin.congruence_equivalent n.span hall
      (Builtin.isRandom_of_call hn hcalls) hscales (@rfl _ c.now) hargs fun _ => by
        rw [List.map_tail, List.map_tail, hvalues]
    refine hbuild.mono fun e e' h => ⟨?_, h.finish settings settings' c.table⟩
    rw [isNonDeterministic, isNonDeterministic, h.plain.traits.nonDeterministic,
      h.plain'.traits.nonDeterministic]

/-- Folding constants keeps the meaning of a tree over the builtins: with it and without, the tree
fails with the same error, or resolves to evaluators that mean the same. -/
theorem Builtin.folding_of_resolve (settings : Settings) (compilers : List Compiler)
    (root : Node) (schema : Schema) (w : Walk) (hroot : ∀ n ∈ root.postorder, n.isRandom = false)
    (hplans : ∀ compiler ∈ compilers, ∀ text, (compiler text).Alike (· = ·)
      (fun n => n.isRandom = false) (fun _ _ => Evaluator.MeansSame) (compiler text))
    {folded unfolded : Except ResolveError Evaluator} {after after' : Walk}
    (hfolded : (Resolver.mk catalog { settings with foldConstants := true } compilers).resolve root
      schema w = (folded, after))
    (hunfolded : (Resolver.mk catalog { settings with foldConstants := false } compilers).resolve
      root schema w = (unfolded, after')) :
    Outcome Evaluator.MeansSame folded unfolded ∧ after.context = after'.context := by
  have hscales : { settings with foldConstants := true }.scales =
      { settings with foldConstants := false }.scales := rfl
  have hnodes := Resolver.nodesAlike_folding hscales compilers
  have hcompilers : ∀ compiler ∈ compilers, ∀ text, (compiler text).Alike (· = ·)
      (fun n => n.isRandom = false) (fun _ _ => Equivalent) (compiler text) := by
    intro compiler hmem text
    exact (hplans compiler hmem text).mono (fun _ _ hsame => hsame) (fun _ hn => hn)
      fun _ _ _ _ h => h.meansSame
  have hrun := hnodes.relates_resolve hroot rfl hcompilers schema w w rfl
  rw [hfolded, hunfolded] at hrun
  exact ⟨hrun.1.mono fun _ _ h => h.meansSame, hrun.2⟩

/-- The tree of `1 + 2`. -/
def sumTree : Node :=
  ⟨.operation, "+", ⟨2, 1⟩, [⟨.constant, "1", ⟨0, 1⟩, [], none⟩, ⟨.constant, "2", ⟨4, 1⟩, [], none⟩],
    none⟩

theorem resolve_sumTree {c : Catalog}
    (hname : c.overloads? "+" = some (Builtin.additions.map Builtin.overload)) (folds : Bool) :
    (Resolver.mk c { Settings.default with foldConstants := folds } []).resolve sumTree .empty
        (.idle (.fresh 0)) =
      (.ok (if folds then .constant .int (.int 3) else .scalar (.arithmetic .add .int)
        [.constant .int (.int 1), .constant .int (.int 2)]), .idle (.fresh 0)) := by
  have hcall : c.resolve { Settings.default with foldConstants := folds } "+" ⟨2, 1⟩
      ⟨[.constant .int (.int 1), .constant .int (.int 2)], [⟨0, 1⟩, ⟨4, 1⟩]⟩ (.fresh 0) =
        (.ok (if folds then .constant .int (.int 3) else .scalar (.arithmetic .add .int)
          [.constant .int (.int 1), .constant .int (.int 2)]), .fresh 0) := by
    rw [Catalog.resolve_eq hname]
    cases folds with
    | false => rfl
    | true => rfl
  exact Resolver.resolve_of_args (List.cons_ne_nil _ _) rfl rfl hcall

/-- The sum `1 + 2` is a constant where it is folded, and a sum where it is not. -/
theorem Builtin.folding_of_resolve_sumTree :
    let r (folds : Bool) : Resolver :=
      ⟨catalog, { Settings.default with foldConstants := folds }, []⟩
    let w : Walk := .idle (.fresh 0)
    (∀ n ∈ sumTree.postorder, n.isRandom = false) ∧
      ∃ e e' after after', (r true).resolve sumTree .empty w = (.ok e, after) ∧
        (r false).resolve sumTree .empty w = (.ok e', after') ∧
        e.constantValue?.isSome = true ∧ e'.constantValue?.isSome = false ∧ e.MeansSame e' := by
  intro r w
  have hroot : ∀ n ∈ sumTree.postorder, n.isRandom = false := by decide
  have hfolded := resolve_sumTree overloads?_plus true
  have hunfolded := resolve_sumTree overloads?_plus false
  obtain ⟨houtcome, -⟩ := folding_of_resolve .default [] sumTree .empty w hroot
    (fun _ hmem => by cases hmem) hfolded hunfolded
  refine ⟨hroot, _, _, _, _, hfolded, hunfolded, rfl, rfl, ?_⟩
  cases houtcome with
  | ok related => exact related

end SqlResolution
