import SqlResolution.Proofs.Builtin.TypeSoundness
import SqlResolution.Proofs.Overload.Course
import SqlResolution.Proofs.Overload.Replacement
import SqlResolution.Proofs.Overload.Scoring

/-!
# Calls of the builtins

A call over the builtins that the ranking of the overloads gives to a builtin, step by step: its
arguments are prepared, and the builtin builds an evaluator, which is finished. With another
evaluator in the place of an argument that needs no preparing, the same builtin prepares the rest as
before.
-/
namespace SqlResolution

open Evaluator Steps

namespace Catalog

variable {cat : Catalog} {settings : Settings} {name : String} {span : Span}
  {args : Args} {c after : Context} {e : Evaluator}

/-- A call that succeeds has first looked for a cast of an operand to its own type. Where it is one,
the operand is the answer. -/
theorem exists_elision (hresolve : cat.resolve settings name span args c = (.ok e, after)) :
    ∃ isElided prepared c₁, elision name args c = (.ok (isElided, prepared), c₁) ∧
      (isElided = true → prepared.evaluators.head? = some e ∧ after = c₁) := by
  cases course_of_resolve hresolve with
  | elided _ elides operand =>
    exact ⟨true, _, after, elides, fun _ => ⟨List.head?_eq_getElem?.trans operand, rfl⟩⟩
  | empty _ elides _ _ _ => exact ⟨false, _, _, elides, fun h => by cases h⟩
  | ranked _ elides _ _ _ _ _ => exact ⟨false, _, _, elides, fun h => by cases h⟩

end Catalog

namespace Builtin

/-- A call with arguments that goes to a builtin: the builtin wins the scan of the name's overloads,
its arguments are prepared, and an evaluator is made of them. -/
inductive Call (settings : Settings) (name : String) (span : Span) (args : Args) (c : Context)
    (b : Builtin) (adjusted : Args) (e : Evaluator) (after : Context) : Prop
  | mk {overloads : List Overload} {t : CandidateTracker} {scored : Args} (mem : b ∈ all)
    (found : catalog.overloads? name = some overloads)
    (scanned : scan c.table (isCastCall name args) c.inWindow 0 overloads .start args = (t, scored))
    (wins : t.winner.bind (overloads[·]?) = some b.overload)
    (adjusts : b.overload.adjust name (undefinedPlaces args) scored c = (.ok adjusted, after))
    (creates : b.overload.create settings name span adjusted after = (.ok e, after))

variable {settings : Settings} {name : String} {span : Span} {args prepared : Args}
  {c c' after : Context} {b : Builtin} {adjusted : Args} {e : Evaluator}

/-- Typing the operand of a cast leaves it a call of `cast`. -/
theorem isCastCall_elision {isElided : Bool}
    (h : elision name args c = (.ok (isElided, prepared), c')) :
    isCastCall name prepared = isCastCall name args := by
  obtain ⟨rfl, -⟩ | ⟨_, typed, _, -, rfl, -⟩ := elision_cases h
  · rfl
  · have hsecond : (args.set 0 typed).get? 1 = args.get? 1 := Args.get?_set_of_ne (by decide)
    rw [isCastCall, isCastCall, hsecond, Args.size_set]

/-- A call that succeeds and is no cast of an operand to its own type goes to a builtin. -/
theorem exists_call_of_resolve (hargs : args.isEmpty = false)
    (helision : elision name args c = (.ok (false, prepared), c'))
    (hresolve : catalog.resolve settings name span args c = (.ok e, after)) :
    ∃ b adjusted, Call settings name span prepared c' b adjusted e after := by
  cases Catalog.course_of_resolve hresolve with
  | elided _ elides _ =>
    rw [helision] at elides
    cases elides
  | empty _ elides isEmpty _ _ =>
    rw [isEmpty_elision elides, hargs] at isEmpty
    cases isEmpty
  | ranked found elides _ scanned wins adjusts creates =>
    rw [helision] at elides
    cases elides
    rw [← isCastCall_elision helision] at scanned
    obtain ⟨k, -, hk⟩ := Option.bind_eq_some_iff.mp wins
    obtain ⟨b, hb, rfl, -⟩ := exists_of_mem_overloads found (List.mem_of_getElem? hk)
    exact ⟨b, _, .mk hb found scanned wins adjusts creates⟩

namespace Call

/-- The builtin takes the types that the arguments have. -/
theorem admits (h : Call settings name span args c b adjusted e after) :
    b.overload.Admits (isCastCall name args) args := by
  obtain ⟨-, -, hscan, hwins, -, -⟩ := h
  have htracker := congrArg Prod.fst hscan
  subst htracker
  exact Overload.admits_of_winner hwins

theorem mem (h : Call settings name span args c b adjusted e after) : b ∈ all := by
  obtain ⟨hmem, -, -, -, -, -⟩ := h
  exact hmem

theorem name_eq (h : Call settings name span args c b adjusted e after) :
    b.descriptor.name = Text.lowerAscii name := by
  obtain ⟨-, hfound, -, hwins, -, -⟩ := h
  obtain ⟨k, -, hk⟩ := Option.bind_eq_some_iff.mp hwins
  obtain ⟨b', -, hoverload, hname⟩ := exists_of_mem_overloads hfound (List.mem_of_getElem? hk)
  have hdescriptor : b.descriptor = b'.descriptor := congrArg Overload.signature hoverload
  rw [hdescriptor, hname]

/-- The builtin takes the number of arguments. -/
theorem acceptsArity (h : Call settings name span args c b adjusted e after)
    (hfixes : ∀ arg ∈ args.evaluators, arg.FixesConstants) :
    b.descriptor.acceptsArity args.size = true := by
  obtain ⟨-, -, hscan, hwins, -, -⟩ := h
  have htracker := congrArg Prod.fst hscan
  subst htracker
  obtain ⟨-, -, harity, -, -⟩ := exists_choice hfixes hwins
  exact harity

/-- No other builtin of its name scores above the builtin. -/
theorem not_outranked (h : Call settings name span args c b adjusted e after)
    (hfixes : ∀ arg ∈ args.evaluators, arg.FixesConstants) {rival : Builtin} (hrival : rival ∈ all)
    (hname : rival.descriptor.name = b.descriptor.name)
    (hfixed : rival.descriptor.isVariadic = false)
    (harity : rival.descriptor.acceptsArity args.size = true) :
    ¬(rival.overload.score c.table (isCastCall name args) c.inWindow args).1.Outranks
      (b.overload.score c.table (isCastCall name args) c.inWindow args).1 := by
  have hlower := h.name_eq
  obtain ⟨-, hfound, hscan, hwins, -, -⟩ := h
  have htracker := congrArg Prod.fst hscan
  subst htracker
  have hoverloads := overloads?_catalog name
  rw [hfound, Option.getD_some] at hoverloads
  subst hoverloads
  have hmem : rival.overload ∈
      (all.filter (·.descriptor.name == Text.lowerAscii name)).map overload :=
    List.mem_map_of_mem (List.mem_filter.mpr ⟨hrival, beq_iff_eq.mpr (hname.trans hlower)⟩)
  refine winner_not_outranked hfixes hwins hmem harity fun hvariadic => ?_
  rw [show rival.overload.signature.isVariadic = false from hfixed] at hvariadic
  cases hvariadic

/-- Constants that are plain are left as they are by the scan. -/
theorem adjusts (h : Call settings name span args c b adjusted e after)
    (hfixes : ∀ arg ∈ args.evaluators, arg.FixesConstants) :
    b.overload.adjust name (undefinedPlaces args) args c = (.ok adjusted, after) := by
  obtain ⟨-, -, hscan, -, hadjusts, -⟩ := h
  have hscored := congrArg Prod.snd hscan
  rw [snd_scan hfixes] at hscored
  subst hscored
  exact hadjusts

/-- What the builtin built, before it was finished. -/
theorem exists_built (h : Call settings name span args c b adjusted e after) :
    ∃ built, b.build span adjusted settings after = .ok built ∧
      (!after.allowNonDeterministic && built.isNonDeterministic) = false ∧
        e = built.finish settings after.table := by
  obtain ⟨-, -, -, -, -, hcreates⟩ := h
  obtain ⟨-, built, hbuild, hallowed, he⟩ := Overload.create_ok hcreates
  exact ⟨built, build_of_factory hbuild, hallowed, he⟩

/-- With another evaluator in the place of an argument, where neither is rewritten, the builtin is
given that one and all else as before. -/
theorem take_set (h : Call settings name span args c b adjusted e after)
    (hfixes : ∀ arg ∈ args.evaluators, arg.FixesConstants) {i : Nat} {arg r : Evaluator}
    {p : Parameter} (harg : args.get? i = some arg) (hp : b.descriptor.parameters[i]? = some p)
    (hdefined : arg.isUndefined = false)
    (hkeeps : ∀ position, rewriteArgument after.table p.tag arg position = .ok arg ∧
      rewriteArgument after.table p.tag r position = .ok r) :
    adjusted.get? i = some arg ∧ ∀ built,
      b.build span (adjusted.set i r) settings after = .ok built →
        (!after.allowNonDeterministic && built.isNonDeterministic) = false →
          b.overload.take settings name span (undefinedPlaces args) (args.set i r) c =
            (.ok (built.finish settings after.table), after) := by
  obtain ⟨hadjust, hkept⟩ := Overload.adjust_set (r := r) (o := b.overload) (fun _ _ _ => rfl) hp
    harg (notMem_undefinedPlaces harg hdefined) (pairwise_undefinedPlaces args) (h.adjusts hfixes)
    hkeeps
  refine ⟨hkept, fun built hbuild hallowed => ?_⟩
  have hfactory : b.overload.factory.build span (adjusted.set i r) settings after =
      .ok (some built) := by
    change (b.build span (adjusted.set i r) settings after).map some = _
    rw [hbuild]
    rfl
  unfold Overload.take
  rw [bind_of_ok hadjust]
  exact Overload.create_of_build hfactory hallowed

end Call
end Builtin
end SqlResolution
