import SqlResolution.Proofs.Builtin.Constants
import SqlResolution.Proofs.Evaluator.Exposure
import SqlResolution.Proofs.Overload.Window
import SqlResolution.Proofs.Walk.Determinacy

/-!
# Non-determinism of the builtins

Every builtin builds one evaluator over its arguments, which it may have converted, and every one of
these evaluators but the running average tells whether an argument is non-deterministic. A running
average is built in window clauses alone, since the average over a group has the same signature and
comes first.
-/
namespace SqlResolution

open Evaluator Steps

namespace Builtin

variable {settings : Settings} {name : String} {span : Span} {args prepared : Args}
  {c after : Context} {b : Builtin} {e : Evaluator}

theorem madeOver_convertOperand {binds : BindTable} {type : ColumnType} {given : List Evaluator}
    {e' : Evaluator} {position : Span} (h : e ∈ given)
    (hconvert : convertOperand binds type e position = .ok e') : e'.MadeOver given := by
  obtain ⟨converted, hconverted, hfinished⟩ := convertOperand_ok hconvert
  have hmade : converted.MadeOver given := by
    cases hconverted with
    | kept => exact .given h
    | read v => exact .constant type v
    | adapted adapter => exact .adapt (.given h) adapter e.type type
  obtain rfl | ⟨-, rfl⟩ := hfinished
  · exact hmade
  · exact hmade.fold binds

/-- What a builtin builds has arguments made of the given ones. It tells of them, unless it is a
running average. -/
theorem build_spec (hbuild : b.build span args settings c = .ok e) :
    (∀ arg ∈ e.args, arg.MadeOver args.evaluators) ∧ e.isCustom = false ∧
      (b ≠ .runningAverage → e.hidesArgument = false) := by
  have hgiven : ∀ es : List Evaluator, es ⊆ args.evaluators →
      ∀ arg ∈ es, arg.MadeOver args.evaluators := fun es hes arg harg => .given (hes harg)
  have hone : ∀ {arg : Evaluator} {rest : List Evaluator}, args.evaluators = arg :: rest →
      ∀ part ∈ [arg], part.MadeOver args.evaluators := by
    intro arg rest hevaluators
    refine hgiven [arg] ?_
    simp [hevaluators]
  cases makes_of_build hbuild with
  | kernel k | varcharLength | concat =>
    exact ⟨hgiven _ (List.Subset.refl _), rfl, fun _ => rfl⟩
  | converted k operands =>
    refine ⟨forall_convertOperands (fun entry hentry e he => ?_) operands, rfl, fun _ => rfl⟩
    exact madeOver_convertOperand (List.of_mem_zip hentry).1 he
  | cast source target two => exact ⟨hone two, rfl, fun _ => rfl⟩
  | member texts holdsNull some => exact ⟨hone some, rfl, fun _ => rfl⟩
  | total which one => exact ⟨hone one, rfl, fun _ => rfl⟩
  | runningAverage one => exact ⟨hone one, rfl, fun hne => absurd rfl hne⟩
  | nullCast | randomInt | randomDouble | now | count | rowNumber | rank =>
    exact ⟨hgiven _ (List.nil_subset _), rfl, fun _ => rfl⟩

theorem buildsOverArguments_catalog (settings : Settings) :
    catalog.BuildsOverArguments settings := by
  intro name overloads hname o ho span args c e hbuild
  obtain ⟨b, -, rfl, -⟩ := exists_of_mem_overloads hname ho
  exact .inr (build_spec (build_of_factory hbuild)).1

def averages : List Builtin := [total .average, runningAverage]

/-- Outside window clauses no call goes to the running average. -/
theorem Call.ne_runningAverage {adjusted : Args}
    (h : Call settings name span args c b adjusted e after)
    (hfixes : ∀ arg ∈ args.evaluators, arg.FixesConstants) (hwindow : c.inWindow = false) :
    b ≠ .runningAverage := by
  rintro rfl
  have hname : "avg" = Text.lowerAscii name := h.name_eq
  obtain ⟨-, hfound, hscanned, hwins, -, -⟩ := h
  have hoverloads : catalog.overloads? name = some (averages.map overload) :=
    overloads?_of_filter (List.cons_ne_nil _ _) (by rw [← hname]; decide +kernel)
  rw [hfound] at hoverloads
  cases hoverloads
  obtain ⟨k, hwinner, hk⟩ := Option.bind_eq_some_iff.mp hwins
  have hpair : (total .average).overload.IsWindowPair runningAverage.overload :=
    ⟨rfl, rfl, rfl, rfl, rfl⟩
  have hchosen : (scan c.table (isCastCall name args) false 0 (averages.map overload) .start
      args).1.winner = some k := by
    rw [← hwindow, hscanned]
    exact hwinner
  have hfirst : (averages.map overload)[0]? = some (total .average).overload := rfl
  obtain ⟨hbefore, -⟩ := hpair.loose_of_winner hfirst hk
    (fun _ => Overload.rawScore?_of_reevaluated hfixes) hchosen
  exact Nat.not_lt_zero k hbefore

/-- Evaluators of the library, of which no running average is over rows outside a window clause. -/
def IsOfLibrary (inWindow : Bool) (e : Evaluator) : Prop :=
  e.isCustom = false ∧ (inWindow = false → e.hidesArgument = false)

theorem passes_isOfLibrary (inWindow : Bool) : Passes (IsOfLibrary inWindow) where
  atom {e} h := by
    cases e <;> first | exact ⟨rfl, fun _ => rfl⟩ | cases h
  eval b row h := by
    rwa [IsOfLibrary, isCustom_eval, hidesArgument_eval]
  adapt _ _ _ _ := ⟨rfl, fun _ => rfl⟩
  memo _ _ := ⟨rfl, fun _ => rfl⟩

theorem isOfLibrary_of_create {inWindow : Bool}
    (hargs : ∀ arg ∈ args.evaluators, arg.AllNodes (IsOfLibrary inWindow))
    (hne : inWindow = false → b ≠ .runningAverage)
    (hcreate : b.overload.create settings name span args c = (.ok e, after)) :
    e.AllNodes (IsOfLibrary inWindow) := by
  obtain ⟨-, built, hbuild, -, rfl⟩ := Overload.create_ok hcreate
  obtain ⟨hmade, hlibrary, htells⟩ := build_spec (build_of_factory hbuild)
  refine AllNodes.finish (passes_isOfLibrary inWindow) (allNodes_iff.mpr ⟨?_, ?_⟩) settings c.table
  · exact ⟨hlibrary, fun hwindow => htells (hne hwindow)⟩
  · exact fun arg harg => (hmade arg harg).allNodes (passes_isOfLibrary inWindow) hargs

theorem fixesConstants_of_create (hargs : ∀ arg ∈ args.evaluators, arg.FixesConstants)
    (hcreate : b.overload.create settings name span args c = (.ok e, after)) :
    e.FixesConstants := by
  obtain ⟨-, built, hbuild, -, rfl⟩ := Overload.create_ok hcreate
  exact (fixesConstants_build hargs (build_of_factory hbuild)).finish settings c.table

/-- All evaluators of a tree over the builtins are of the library. -/
theorem isOfLibrary_of_resolve {compilers : List Compiler} {root : Node} {schema : Schema}
    {w after : Walk}
    (h : (Resolver.mk catalog settings compilers).resolve root schema w = (.ok e, after)) :
    e.AllNodes (IsOfLibrary w.context.inWindow) := by
  have hpasses := passes_isOfLibrary w.context.inWindow
  have hmaintained := maintained_fixesConstants.and hpasses.maintained
  refine (Resolver.forall_of_resolve
    (J := fun e => e.FixesConstants ∧ e.AllNodes (IsOfLibrary w.context.inWindow)) ?_ ?_ h).2.2
  · intro e hatom
    refine ⟨?_, .atom hpasses hatom⟩
    cases e with
    | constant | typeName => exact .of_plain (by simp [Plain])
    | column | slotLink | namedLink | cursor => exact .of_variable rfl
    | _ => cases hatom
  · intro name span args c c' e hbounds hargs hresolve
    cases Catalog.course_of_resolve hresolve with
    | elided found elides operand =>
      exact (hmaintained.elision hargs ⟨trivial, trivial⟩ elides).2 e (List.mem_of_getElem? operand)
    | @empty overloads prepared o found elides isEmpty answers creates =>
      obtain ⟨b, -, rfl, -⟩ := exists_of_mem_overloads found (List.mem_of_find?_eq_some answers)
      have hne : b ≠ .runningAverage := by
        rintro rfl
        cases List.find?_some answers
      have hnone : ∀ arg ∈ Args.empty.evaluators,
          arg.FixesConstants ∧ arg.AllNodes (IsOfLibrary w.context.inWindow) := by
        intro arg harg
        cases harg
      exact ⟨fixesConstants_of_create (fun arg harg => (hnone arg harg).1) creates,
        isOfLibrary_of_create (fun arg harg => (hnone arg harg).2) (fun _ => hne) creates⟩
    | @ranked overloads prepared scored adjusted ready t o found elides isEmpty scanned wins adjusts
        creates =>
      obtain ⟨k, -, hk⟩ := Option.bind_eq_some_iff.mp wins
      obtain ⟨b, hb, rfl, -⟩ := exists_of_mem_overloads found (List.mem_of_getElem? hk)
      obtain ⟨-, hprepared⟩ := hmaintained.elision hargs ⟨trivial, trivial⟩ elides
      have hfixes : ∀ arg ∈ prepared.evaluators, arg.FixesConstants :=
        fun arg harg => (hprepared arg harg).1
      rw [← isCastCall_elision elides] at scanned
      have hcall : Call settings name span prepared ready b adjusted e c' :=
        .mk hb found scanned wins adjusts creates
      obtain ⟨-, hadjusted⟩ := hmaintained.adjust (pairwise_undefinedPlaces prepared)
        (fun i hi e he => isUndefined_of_evolve (.refl prepared) hi he) hprepared
        ⟨trivial, trivial⟩ (hcall.adjusts hfixes)
      have hready : ready.inWindow = w.context.inWindow := by
        have hframe := keeps_frame_elision name args c
        rw [elides] at hframe
        exact Context.inWindow_of_bounds ((Context.bounds_of_frame hframe).trans hbounds)
      exact ⟨fixesConstants_of_create (fun arg harg => (hadjusted arg harg).1) creates,
        isOfLibrary_of_create (fun arg harg => (hadjusted arg harg).2)
          (fun hwindow => hcall.ne_runningAverage hfixes (hready.trans hwindow)) creates⟩

/-- A tree over the builtins in which some evaluator is non-deterministic is so itself, exactly where
it exposes a random function if it has one: where one stands in it under no running average. Outside
window clauses it always is. -/
theorem determinacy_of_resolve {compilers : List Compiler} {root : Node} {schema : Schema}
    {w after : Walk}
    (h : (Resolver.mk catalog settings compilers).resolve root schema w = (.ok e, after)) :
    (((∃ n ∈ e.nodes, n.isNonDeterministic = true) → e.isNonDeterministic = true) ↔
        ((∃ n ∈ e.nodes, n.isRandom = true) → ∃ n, e.Exposes n ∧ n.isRandom = true)) ∧
      (w.context.inWindow = false →
        (∃ n ∈ e.nodes, n.isNonDeterministic = true) → e.isNonDeterministic = true) := by
  have hnodes := isOfLibrary_of_resolve h
  have hlibrary : e.AllNodes fun n => n.isCustom = false := fun n hn => (hnodes n hn).1
  rw [exists_isNonDeterministic_iff hlibrary, isNonDeterministic_iff_exposes hlibrary]
  refine ⟨Iff.rfl, ?_⟩
  rintro hwindow ⟨n, hn, hrandom⟩
  exact ⟨n, exposes_of_mem_nodes (fun n hn => (hnodes n hn).2 hwindow) hn, hrandom⟩

/-- The tree of `avg(rnd_double())`. -/
def randomAverage : Node :=
  ⟨.function, "avg", ⟨0, 3⟩, [⟨.function, "rnd_double", ⟨4, 10⟩, [], none⟩], none⟩

/-- The random function in the tree. -/
def randomArgument : Evaluator := .randomDouble (streamAt ⟨4, 10⟩)

theorem overloads?_avg : catalog.overloads? "avg" = some (averages.map overload) :=
  overloads?_of_filter (List.cons_ne_nil _ _) (by decide +kernel)

theorem overloads?_randomDouble :
    catalog.overloads? "rnd_double" = some ([randomDouble].map overload) :=
  overloads?_of_filter (List.cons_ne_nil _ _) (by decide +kernel)

/-- The tree is resolved by the call of `avg` on the random function. -/
theorem resolve_randomAverage {cat : Catalog} {c : Context}
    (hrandom : cat.resolve .default "rnd_double" ⟨4, 10⟩ .empty c = (.ok randomArgument, c))
    (havg : cat.resolve .default "avg" ⟨0, 3⟩ ⟨[randomArgument], [⟨4, 10⟩]⟩ c = (.ok e, c)) :
    (Resolver.mk cat .default []).resolve randomAverage .empty (.idle c) = (.ok e, .idle c) := by
  let r : Resolver := ⟨cat, .default, []⟩
  have hargs : r.resolveTrees (r.queryOf r.compilers) .empty randomAverage.args
      (Walk.idle c).effects = (.ok [randomArgument], (Walk.idle c).effects) := by
    rw [randomAverage, Resolver.resolveTrees, bind_apply, Resolver.resolveTree_of_leaf _ _ _ rfl,
      Resolver.leafOf]
    dsimp only
    rw [Recursive.ofResolution, show (Walk.idle c).effects.context = c from rfl, hrandom]
    rfl
  exact Resolver.resolve_of_args (List.cons_ne_nil _ _) hargs rfl havg

/-- The average over a group, outside window clauses. -/
theorem resolve_groupAverage :
    (Resolver.mk catalog .default []).resolve randomAverage .empty (.idle (.fresh 0)) =
      (.ok (.total .average .zero randomArgument), .idle (.fresh 0)) := by
  refine resolve_randomAverage ?_ ?_
  · rw [Catalog.resolve_eq overloads?_randomDouble]
    rfl
  · rw [Catalog.resolve_eq overloads?_avg]
    rfl

/-- Outside window clauses the random function shows in the average over it. -/
theorem determinacy_of_resolve_randomAverage :
    let w : Walk := .idle (.fresh 0)
    let e : Evaluator := .total .average .zero randomArgument
    (Resolver.mk catalog .default []).resolve randomAverage .empty w = (.ok e, w) ∧
      w.context.inWindow = false ∧ (∃ n ∈ e.nodes, n.isNonDeterministic = true) ∧
        e.isNonDeterministic = true := by
  intro w e
  have hexists : ∃ n ∈ e.nodes, n.isNonDeterministic = true :=
    ⟨randomArgument, mem_nodes_iff.mpr (.inr ⟨_, List.mem_cons_self, mem_nodes_iff.mpr (.inl rfl)⟩),
      rfl⟩
  exact ⟨resolve_groupAverage, rfl, hexists,
    (determinacy_of_resolve resolve_groupAverage).2 rfl hexists⟩

/-- In a window clause the running average hides the random function under it. -/
theorem not_determinacy_of_randomAverage :
    let w : Walk := .idle (Context.fresh 0).enterWindow
    let e : Evaluator := .runningAverage 0 0 randomArgument
    (Resolver.mk catalog .default []).resolve randomAverage .empty w = (.ok e, w) ∧
      (∃ n ∈ e.nodes, n.isNonDeterministic = true) ∧ e.isNonDeterministic = false := by
  refine ⟨resolve_randomAverage ?_ ?_, ⟨randomArgument, ?_, rfl⟩, rfl⟩
  · rw [Catalog.resolve_eq overloads?_randomDouble]
    rfl
  · rw [Catalog.resolve_eq overloads?_avg]
    rfl
  · exact mem_nodes_iff.mpr (.inr ⟨_, List.mem_cons_self, mem_nodes_iff.mpr (.inl rfl)⟩)

end Builtin
end SqlResolution
